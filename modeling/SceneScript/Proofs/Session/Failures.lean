import SceneScript.Proofs.Session.Steps
import SceneScript.Proofs.Session.Streaming

/-!
# Operations that fail

An operation that fails has changed nothing but the sink. So a run comes to the same without the
operations that failed in it: those that were carried out (`succeeding`) lead through the same
coordinate systems and pictures on their own (`scene_after_succeeding`), and each of them can be
carried out again, unless the sink now refuses what it took before (`execute_of_mem_succeeding`).

Only closing fails by itself, and it fails when there is one system left. Openings and closings that
were carried out count the systems (`depth_after_succeeding`), so from a new session a closing fails
just when as many have been closed already as were opened (`failures_change_nothing`).
-/

namespace SceneScript

namespace Session

variable {σ : Type}

/-- The operations of a run that were carried out, in their order. -/
def succeeding (sink : Sink σ) : List Operation → Session σ → List Operation
  | [], _ => []
  | op :: ops, s =>
    match execute sink op s with
    | (.ok _, s') => op :: succeeding sink ops s'
    | (.error _, s') => succeeding sink ops s'

variable {sink : Sink σ} {op : Operation} {ops : List Operation} {s t : Session σ}

/-! ## Along the list -/

theorem succeeding_cons_of_ok (h : (execute sink op s).1 = .ok ()) :
    succeeding sink (op :: ops) s = op :: succeeding sink ops (execute sink op s).2 := by
  rw [succeeding]
  split
  · next hs => rw [hs]
  · next hs =>
    rw [hs] at h
    cases h

theorem succeeding_cons_of_error {e : SessionError} (h : (execute sink op s).1 = .error e) :
    succeeding sink (op :: ops) s = succeeding sink ops (execute sink op s).2 := by
  rw [succeeding]
  split
  · next hs =>
    rw [hs] at h
    cases h
  · next hs => rw [hs]

/-- An operation that fails is none to the session apart from the sink. -/
theorem scene_execute_of_error {e : SessionError} (h : (execute sink op s).1 = .error e) :
    (execute sink op s).2.scene = s.scene := by
  rw [execute_eq_of_error h]
  rfl

/-- Sessions that differ in the sink alone go on to such. -/
theorem scene_execute_congr (h : t.scene = s.scene) :
    (execute sink op t).2.scene = (execute sink op s).2.scene := by
  rw [scene_execute, scene_execute, h]

/-- The operations that were carried out lead to the same coordinate systems and the same picture
without the others. -/
theorem scene_after_succeeding (h : t.scene = s.scene) :
    (after sink (succeeding sink ops s) t).scene = (after sink ops s).scene := by
  induction ops generalizing s t with
  | nil => exact h
  | cons op ops ih =>
    cases hr : (execute sink op s).1 with
    | ok =>
      rw [succeeding_cons_of_ok hr, after_cons, after_cons]
      exact ih (scene_execute_congr h)
    | error e =>
      rw [succeeding_cons_of_error hr, after_cons]
      exact ih (h.trans (scene_execute_of_error hr).symm)

/-- An operation that can be carried out in a session can be carried out in one that differs in the
sink alone, unless the sink refuses. -/
theorem execute_of_scene_eq (h : t.scene = s.scene) (hs : (execute sink op s).1 = .ok ()) :
    (execute sink op t).1 = .ok () ∨
      op.delivers = true ∧ ∃ e, (execute sink op t).1 = .error (.output e) := by
  cases hd : op.delivers with
  | false => exact .inl ((execute_fst_of_scene_eq h hd).trans hs)
  | true =>
    rw [← Operation.isSome_destination?] at hd
    obtain ⟨destination, hd⟩ := Option.isSome_iff_exists.1 hd
    rw [execute_of_destination? sink t hd, deliver]
    obtain ⟨_ | _, _⟩ := sink.deliver t.framebuffer destination t.delivered
    · exact .inr ⟨rfl, _, rfl⟩
    · exact .inl rfl

/-- The operations that were carried out are carried out again without the others, unless the sink
refuses. -/
theorem execute_of_mem_succeeding (h : t.scene = s.scene) {before later : List Operation}
    (hb : succeeding sink ops s = before ++ op :: later) :
    (execute sink op (after sink before t)).1 = .ok () ∨
      op.delivers = true ∧ ∃ e, (execute sink op (after sink before t)).1 = .error (.output e) := by
  induction ops generalizing s t before with
  | nil => simp [succeeding] at hb
  | cons op' ops ih =>
    cases hr : (execute sink op' s).1 with
    | ok =>
      rw [succeeding_cons_of_ok hr] at hb
      cases before with
      | nil =>
        obtain ⟨rfl, -⟩ := List.cons.inj hb
        exact execute_of_scene_eq h hr
      | cons b before =>
        obtain ⟨rfl, hb'⟩ := List.cons.inj hb
        rw [after_cons]
        exact ih (scene_execute_congr h) hb'
    | error e =>
      rw [succeeding_cons_of_error hr] at hb
      exact ih (h.trans (scene_execute_of_error hr).symm) hb

/-! ## Counting -/

/-- The operations that were carried out are some of them all. -/
theorem succeeding_sublist (sink : Sink σ) (ops : List Operation) (s : Session σ) :
    (succeeding sink ops s).Sublist ops := by
  induction ops generalizing s with
  | nil => exact .slnil
  | cons op ops ih =>
    cases hr : (execute sink op s).1 with
    | ok =>
      rw [succeeding_cons_of_ok hr]
      exact (ih _).cons_cons op
    | error e =>
      rw [succeeding_cons_of_error hr]
      exact (ih _).cons op

/-- As many operations are tallied as carried out as there are such. -/
theorem executed_foldl_advance (sink : Sink σ) (ops : List Operation) (run : Tally × Session σ) :
    (ops.foldl (advance sink) run).1.executed =
      run.1.executed + (succeeding sink ops run.2).length := by
  induction ops generalizing run with
  | nil => rfl
  | cons op ops ih =>
    rw [List.foldl_cons, ih]
    change (run.1.count (execute sink op run.2).1).executed +
      (succeeding sink ops (execute sink op run.2).2).length = _
    cases hr : (execute sink op run.2).1 with
    | ok =>
      rw [succeeding_cons_of_ok hr, List.length_cons]
      exact Nat.add_right_comm ..
    | error e =>
      rw [succeeding_cons_of_error hr]
      rfl

/-- The systems are counted by the openings and by the closings that were carried out. -/
theorem depth_after_succeeding (sink : Sink σ) (ops : List Operation) (s : Session σ) :
    (after sink ops s).stack.depth + (succeeding sink ops s).count .pop =
      s.stack.depth + ops.count .push := by
  induction ops generalizing s with
  | nil => rfl
  | cons op ops ih =>
    have hops := ih (execute sink op s).2
    rw [after_cons, ← List.singleton_append, List.count_append]
    cases hr : (execute sink op s).1 with
    | ok =>
      have hop : op = .pop → 1 < s.stack.depth := by
        rintro rfl
        refine Decidable.byContradiction fun hd => ?_
        rw [execute_pop_fst, if_neg hd] at hr
        cases hr
      have hstep := depth_execute_add sink s hop
      rw [List.singleton_append, succeeding_cons_of_ok hr, ← List.singleton_append,
        List.count_append]
      omega
    | error e =>
      have hop : [op].count .push = 0 := by
        rw [List.count_eq_zero, List.mem_singleton]
        rintro rfl
        cases hr
      have hstep := stack_eq_of_scene_eq (scene_execute_of_error hr)
      rw [hstep] at hops
      rw [List.singleton_append, succeeding_cons_of_error hr]
      omega

/-- An operation that fails changes nothing but the sink. Every operation of a run is carried out or
fails, and the run comes to the coordinate systems and the picture that those that were carried out
come to alone; of these each is then carried out again, unless it is a delivery that the sink now
refuses. And after any operations on a new session, closing fails just when as many systems have
been closed as were opened. -/
theorem failures_change_nothing (sink : Sink σ) (s : Session σ) (ops : List Operation) :
    (∀ op e, (execute sink op s).1 = .error e →
      (execute sink op s).2 = { s with delivered := (execute sink op s).2.delivered }) ∧
    (let run := executeAll sink ops s
      let kept := succeeding sink ops s
      let again := executeAll sink kept s
      run.1.executed + run.1.failed = ops.length ∧
        kept.Sublist ops ∧ kept.length = run.1.executed ∧
        again.2.stack = run.2.stack ∧ again.2.framebuffer = run.2.framebuffer ∧
        ∀ before op later, kept = before ++ op :: later →
          (execute sink op (after sink before s)).1 = .ok () ∨
            op.delivers = true ∧
              ∃ e, (execute sink op (after sink before s)).1 = .error (.output e)) ∧
    ∀ config start,
      let fresh := Session.new config start
      (∃ e, (execute sink .pop (after sink ops fresh)).1 = .error e) ↔
        ops.count .push ≤ (succeeding sink ops fresh).count .pop := by
  refine ⟨fun op e h => execute_eq_of_error h, ⟨?_, succeeding_sublist sink ops s, ?_, ?_⟩,
    fun config start => ?_⟩
  · have htally := tally_foldl_advance sink ops (.zero, s)
    exact htally.trans (Nat.zero_add _)
  · have hexecuted := executed_foldl_advance sink ops (.zero, s)
    exact (hexecuted.trans (Nat.zero_add _)).symm
  · have hscene : (after sink (succeeding sink ops s) s).scene = (after sink ops s).scene :=
      scene_after_succeeding rfl
    exact ⟨stack_eq_of_scene_eq hscene, framebuffer_eq_of_scene_eq hscene,
      fun before op later hb => execute_of_mem_succeeding rfl hb⟩
  · have hdepth := depth_after_succeeding sink ops (new config start)
    have hfresh : (new config start).stack.depth = 1 := rfl
    dsimp only
    rw [execute_pop_fst]
    split
    · next hd => exact ⟨nofun, fun h => by omega⟩
    · next hd => exact ⟨fun _ => by omega, fun _ => ⟨_, rfl⟩⟩

/-- A run with closings too many, under a sink that takes only its second picture. -/
theorem failures_change_nothing_scene :
    let sink : Sink Nat := ⟨fun _ _ n => (if n = 1 then .ok () else .error .encode, n + 1)⟩
    let ops : List Operation := [.pop, .push, .display, .pop, .save "a.png", .pop]
    let kept := succeeding sink ops (.new .standard 0)
    kept = [.push, .pop, .save "a.png"] ∧
      (executeAll sink kept (.new .standard 0)).2.framebuffer =
        (executeAll sink ops (.new .standard 0)).2.framebuffer ∧
      (executeAll sink kept (.new .standard 0)).1 = ⟨2, 1⟩ := by
  intro sink ops kept
  exact ⟨rfl, (failures_change_nothing sink (.new .standard 0) ops).2.1.2.2.2.2.1, rfl⟩

end Session

end SceneScript
