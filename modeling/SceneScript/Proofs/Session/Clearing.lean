import SceneScript.Proofs.Session.Invariant

/-!
# What is left behind clearing

Clearing a picture leaves the one that a new session starts with (`AtRest.scene_clear`), since a
picture keeps its size and its background all along. Of what was carried out before it, only the
coordinate systems are still there, and they depend on no operation but those that act on them
(`stack_after_filter`), which in turn change nothing else (`after_of_places`). So a run goes on
behind clearing as if there had been only these before (`clearing_forgets_drawings`).
-/

namespace SceneScript

variable {σ τ : Type}

/-- The operation acts on the coordinate systems. -/
def Operation.places : Operation → Bool
  | push | pop | move .. | rotate .. | scale .. => true
  | _ => false

namespace Session

variable {sink : Sink σ} {s : Session σ} {op : Operation} {ops : List Operation}

/-! ## The picture -/

/-- A run does not change the background. -/
theorem AtRest.background_after (hs : s.AtRest) (sink : Sink σ) (ops : List Operation) :
    (after sink ops s).framebuffer.background = s.framebuffer.background := by
  induction ops generalizing s with
  | nil => rfl
  | cons op ops ih =>
    rw [after_cons, ih (atRest_execute hs sink op), hs.framebuffer_execute]
    split
    · rfl
    · exact Framebuffer.background_plotAll ..

/-- Clearing leaves a session as it was at first, but for the coordinate systems and the sink. -/
theorem AtRest.scene_clear (hs : s.AtRest) (hb : s.framebuffer.background = s.config.background) :
    (execute sink .clear s).2.scene = { new s.config () with stack := s.stack } := by
  have hclear : s.framebuffer.clear = .new s.config.width s.config.height s.config.background := by
    rw [Framebuffer.clear_eq_new, hs.width, hs.height, hb]
  change Session.mk s.config s.stack s.framebuffer.clear s.edges s.polygons () = _
  rw [hclear, hs.edges, hs.polygons]
  rfl

/-! ## The coordinate systems -/

/-- An operation that does not act on the coordinate systems leaves them as they are. -/
theorem stack_execute_of_not_places (sink : Sink σ) (s : Session σ) (h : op.places = false) :
    (execute sink op s).2.stack = s.stack := by
  cases op with
  | push | pop | move | rotate | scale => cases h
  | _ => rfl

/-- What an operation makes of the coordinate systems depends on them alone. -/
theorem stack_execute_congr (sink : Sink σ) (sink' : Sink τ) (op : Operation) {t : Session τ}
    (h : t.stack = s.stack) : (execute sink' op t).2.stack = (execute sink op s).2.stack := by
  cases op with
  | pop =>
    cases hb : s.stack.below with
    | nil => rw [execute_pop_of_nil sink hb, execute_pop_of_nil sink' (h ▸ hb), h]
    | cons m below => rw [execute_pop_of_cons sink hb, execute_pop_of_cons sink' (h ▸ hb)]
  | push | move | rotate | scale => simp [execute, compose, h]
  | _ => exact h

/-- The operations that act on the coordinate systems lead to the same ones without the others. -/
theorem stack_after_filter (sink : Sink σ) (sink' : Sink τ) (ops : List Operation) {t : Session τ}
    (h : t.stack = s.stack) :
    (after sink' (ops.filter Operation.places) t).stack = (after sink ops s).stack := by
  induction ops generalizing s t with
  | nil => exact h
  | cons op ops ih =>
    rw [after_cons]
    cases hp : op.places with
    | true =>
      rw [List.filter_cons_of_pos hp, after_cons]
      exact ih (stack_execute_congr sink sink' op h)
    | false =>
      rw [List.filter_cons_of_neg (by simp [hp])]
      exact ih (h.trans (stack_execute_of_not_places sink s hp).symm)

/-- An operation that acts on the coordinate systems does nothing else. -/
theorem execute_of_places (sink : Sink σ) (s : Session σ) (h : op.places = true) :
    (execute sink op s).2 = { s with stack := (execute sink op s).2.stack } := by
  cases op with
  | pop =>
    cases hb : s.stack.below with
    | nil => rw [execute_pop_of_nil sink hb]
    | cons m below => rw [execute_pop_of_cons sink hb]
  | push | move | rotate | scale => rfl
  | _ => cases h

/-- Operations that act on the coordinate systems do nothing else. -/
theorem after_of_places (sink : Sink σ) (s : Session σ) (h : ∀ op ∈ ops, op.places = true) :
    after sink ops s = { s with stack := (after sink ops s).stack } := by
  induction ops generalizing s with
  | nil => rfl
  | cons op ops ih =>
    obtain ⟨hop, hops⟩ := List.forall_mem_cons.1 h
    rw [after_cons]
    calc after sink ops (execute sink op s).2
      _ = { (execute sink op s).2 with stack := (after sink ops (execute sink op s).2).stack } :=
        ih _ hops
      _ = { s with stack := (after sink ops (execute sink op s).2).stack } := by
        rw [execute_of_places sink s hop]

/-! ## Runs with clearing in them -/

/-- Where a run clears, it has come to where its operations on the coordinate systems lead alone. -/
theorem scene_after_clear (config : Config) (sink : Sink σ) (start : σ) (ops : List Operation) :
    (after sink (ops ++ [.clear]) (new config start)).scene =
      after .silent (ops.filter Operation.places) (new config ()) := by
  have hrest : (after sink ops (new config start)).AtRest :=
    atRest_after (atRest_new config start) sink ops
  have hconfig : (after sink ops (new config start)).config = config := config_after ..
  have hbackground : (after sink ops (new config start)).framebuffer.background =
      (after sink ops (new config start)).config.background := by
    rw [(atRest_new config start).background_after, hconfig]
    rfl
  have hstack : (after .silent (ops.filter Operation.places) (new config ())).stack =
      (after sink ops (new config start)).stack := stack_after_filter sink .silent ops rfl
  have hplaces : ∀ op ∈ ops.filter Operation.places, op.places = true :=
    fun op hop => (List.mem_filter.1 hop).2
  rw [after_concat, hrest.scene_clear hbackground, after_of_places .silent _ hplaces, hstack,
    hconfig]

/-- A picture that is cleared on the way ends as if nothing had been drawn before: from a new
session the picture and the coordinate systems at the end are those of a run, under any sink, with
only the operations on the coordinate systems in the place of all that came before clearing. -/
theorem clearing_forgets_drawings (config : Config) (before later : List Operation)
    (sink : Sink σ) (start : σ) (sink' : Sink τ) (start' : τ) :
    let cleared := after sink (before ++ .clear :: later) (new config start)
    let anew := after sink' (before.filter Operation.places ++ later) (new config start')
    cleared.framebuffer = anew.framebuffer ∧ cleared.stack = anew.stack := by
  intro cleared anew
  have hscene : cleared.scene = anew.scene := by
    calc cleared.scene
      _ = (after sink later (after sink (before ++ [.clear]) (new config start))).scene := by
        rw [← after_append, List.append_assoc]
        rfl
      _ = after .silent later (after .silent (before.filter Operation.places) (new config ())) := by
        rw [scene_after, scene_after_clear]
      _ = anew.scene := by
        rw [scene_after, after_append]
        rfl
  exact ⟨congrArg framebuffer hscene, congrArg stack hscene⟩

end Session

end SceneScript
