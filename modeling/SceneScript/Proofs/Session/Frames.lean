import Mathlib.Data.List.Induction
import Mathlib.Data.List.Infix
import SceneScript.Proofs.Session.Steps

/-!
# Nested coordinate systems in a run

What a run does to the coordinate systems is seen system by system, counted from the outside
(`CoordinateStack.levels`). As long as a system stays open, only the transforms that are made while
it is on top act on it, each from the right (`getElem?_levels_after`). So the systems below one that
stays open stay as they are, and a system is the product of the one that it was opened as a copy of
and of the transforms made in it since (`exists_opening`).

How many systems are open is a matter of counting openings and closings, as long as none of the
closings fails (`depth_after_add`). Where a run never closes more than it has opened, it never gets
below the systems that it found, and enclosed in an opening and a closing it leaves no trace on them
(`nested_frames`).
-/

namespace SceneScript

namespace CoordinateStack

/-- The open systems from the outside in. -/
def levels (s : CoordinateStack) : List Matrix := s.frames.reverse

theorem levels_eq (s : CoordinateStack) : s.levels = s.below.reverse ++ [s.top] :=
  List.reverse_cons

theorem length_levels (s : CoordinateStack) : s.levels.length = s.depth := List.length_reverse

/-- A system that is opened is added on the inside. -/
theorem levels_push (s : CoordinateStack) : s.push.levels = s.levels ++ [s.top] := levels_eq s.push

/-- A system is opened as a copy of the top one. -/
theorem getElem?_levels_push {s : CoordinateStack} {i : Nat} (hi : s.depth = i) :
    s.push.levels[i]? = some s.top := by
  rw [levels_push, List.getElem?_append_right (Nat.le_of_eq (by rw [length_levels, hi])),
    length_levels, hi, Nat.sub_self]
  rfl

/-- The innermost system is the top one. -/
theorem getElem?_levels_top {s : CoordinateStack} {i : Nat} (hi : s.depth = i + 1) :
    s.levels[i]? = some s.top := by
  obtain rfl : s.below.length = i := Nat.succ.inj hi
  rw [levels_eq, List.getElem?_append_right (by simp)]
  simp

/-- A transform acts on the top system, and on no other. -/
theorem getElem?_levels_compose (s : CoordinateStack) (m : Matrix) {i : Nat} (hi : i < s.depth) :
    (s.compose m).levels[i]? =
      s.levels[i]?.map fun k => if s.depth = i + 1 then k * m else k := by
  by_cases h : s.depth = i + 1
  · rw [getElem?_levels_top h, getElem?_levels_top (s := s.compose m) h]
    simp [h, compose]
  · have hb : i < s.below.reverse.length := by
      change i < s.below.length + 1 at hi
      change ¬ s.below.length + 1 = i + 1 at h
      rw [List.length_reverse]
      omega
    rw [levels_eq, levels_eq, List.getElem?_append_left hb]
    simp only [h, if_false, Option.map_id']
    exact List.getElem?_append_left hb

end CoordinateStack

namespace Operation

/-- The operations open at least as many systems as they close up to any point, and as many in
all. -/
def Balanced (ops : List Operation) : Prop :=
  (∀ p, p <+: ops → p.count .pop ≤ p.count .push) ∧ ops.count .pop = ops.count .push

/-- Enclosed in an opening and a closing, balanced operations close no more than they have opened
up to any point. -/
theorem Balanced.count_enclosed_le {ops p : List Operation} (h : Balanced ops)
    (hp : p <+: .push :: ops ++ [.pop]) : p.count .pop ≤ p.count .push := by
  rcases List.prefix_concat_iff.1 hp with rfl | hp
  · have := h.2
    simp
    omega
  · cases p with
    | nil => exact Nat.le_refl _
    | cons op p =>
      obtain ⟨rfl, hp'⟩ := List.cons_prefix_cons.1 hp
      have := h.1 p hp'
      simp
      omega

end Operation

namespace Session

variable {σ : Type} {sink : Sink σ} {s : Session σ} {ops : List Operation} {op : Operation}
  {i n : Nat}

/-- There are at least `n` systems all along a run. -/
def KeepsOpen (sink : Sink σ) (n : Nat) (ops : List Operation) (s : Session σ) : Prop :=
  ∀ p, p <+: ops → n ≤ (after sink p s).stack.depth

/-- The transforms that a run makes while there are `n` systems. -/
def transformsAt (sink : Sink σ) (n : Nat) : List Operation → Session σ → List Matrix
  | [], _ => []
  | op :: ops, s =>
    (if s.stack.depth = n then op.transform?.toList else []) ++
      transformsAt sink n ops (execute sink op s).2

theorem keepsOpen_cons :
    KeepsOpen sink n (op :: ops) s ↔
      n ≤ s.stack.depth ∧ KeepsOpen sink n ops (execute sink op s).2 := by
  constructor
  · intro h
    refine ⟨h [] List.nil_prefix, fun p hp => ?_⟩
    have := h (op :: p) (List.cons_prefix_cons.2 ⟨rfl, hp⟩)
    rwa [after_cons] at this
  · rintro ⟨h, hs⟩ p hp
    cases p with
    | nil => exact h
    | cons op' p =>
      obtain ⟨rfl, hp'⟩ := List.cons_prefix_cons.1 hp
      rw [after_cons]
      exact hs p hp'

theorem keepsOpen_concat (h : KeepsOpen sink n ops s)
    (hn : n ≤ (after sink (ops ++ [op]) s).stack.depth) : KeepsOpen sink n (ops ++ [op]) s := by
  intro p hp
  rcases List.prefix_concat_iff.1 hp with rfl | hp
  · exact hn
  · exact h p hp

/-! ## The systems that stay open -/

/-- A transform is composed into the top system. -/
theorem stack_execute_of_transform? {m : Matrix} (sink : Sink σ) (s : Session σ)
    (h : op.transform? = some m) : (execute sink op s).2.stack = s.stack.compose m := by
  cases op with
  | move | rotate | scale =>
    cases h
    rfl
  | _ => cases h

/-- An operation acts on a system that stays open if it is a transform and the system is on top. -/
theorem getElem?_levels_execute (sink : Sink σ) (op : Operation) (hi : i < s.stack.depth)
    (hi' : i < (execute sink op s).2.stack.depth) :
    (execute sink op s).2.stack.levels[i]? = s.stack.levels[i]?.map fun k =>
      (if s.stack.depth = i + 1 then op.transform?.toList else []).foldl (· * ·) k := by
  cases ht : op.transform? with
  | some m =>
    rw [stack_execute_of_transform? sink s ht, CoordinateStack.getElem?_levels_compose _ m hi]
    congr 1
    funext k
    split <;> rfl
  | none =>
    simp only [Option.toList_none, ite_self, List.foldl_nil, Option.map_id']
    cases op with
    | push =>
      change s.stack.push.levels[i]? = _
      rw [CoordinateStack.levels_push, List.getElem?_append_left]
      rwa [CoordinateStack.length_levels]
    | pop =>
      cases hb : s.stack.below with
      | nil => rw [execute_pop_of_nil sink hb]
      | cons m below =>
        have hl : s.stack.levels = CoordinateStack.levels ⟨m, below⟩ ++ [s.stack.top] := by
          rw [CoordinateStack.levels_eq, hb]
          rfl
        rw [execute_pop_of_cons sink hb] at hi' ⊢
        rw [hl, List.getElem?_append_left]
        rwa [CoordinateStack.length_levels]
    | move | rotate | scale => cases ht
    | _ => rfl

/-- A run acts on a system that stays open by the transforms made while it is on top. -/
theorem getElem?_levels_after (h : KeepsOpen sink (i + 1) ops s) :
    (after sink ops s).stack.levels[i]? =
      s.stack.levels[i]?.map fun k => (transformsAt sink (i + 1) ops s).foldl (· * ·) k := by
  induction ops generalizing s with
  | nil => simp [transformsAt]
  | cons op ops ih =>
    obtain ⟨hs, hops⟩ := keepsOpen_cons.1 h
    rw [after_cons, ih hops, getElem?_levels_execute sink op hs (hops [] List.nil_prefix),
      Option.map_map]
    simp only [transformsAt, List.foldl_append]
    rfl

/-- A system that is open after a run was so all along, or the run has opened it and kept it open
since. -/
theorem exists_opening (hn : n ≤ (after sink ops s).stack.depth) :
    KeepsOpen sink n ops s ∨
      ∃ before later, ops = before ++ .push :: later ∧
        (after sink before s).stack.depth + 1 = n ∧
        KeepsOpen sink n later (execute sink .push (after sink before s)).2 := by
  induction ops using List.reverseRecOn with
  | nil =>
    left
    intro p hp
    rw [List.prefix_nil.1 hp]
    exact hn
  | append_singleton ops op ih =>
    by_cases hle : n ≤ (after sink ops s).stack.depth
    · rcases ih hle with h | ⟨before, later, rfl, hd, h⟩
      · exact .inl (keepsOpen_concat h hn)
      · refine .inr ⟨before, later ++ [op], by simp, hd, keepsOpen_concat h ?_⟩
        simpa [after_append] using hn
    · -- there was one system fewer, so this is where it is opened
      right
      rw [after_concat] at hn
      obtain rfl : op = .push := by
        by_contra hop
        exact hle (Nat.le_trans hn (depth_execute_le sink _ hop))
      change n ≤ (after sink ops s).stack.depth + 1 at hn
      refine ⟨ops, [], rfl, by omega, fun p hp => ?_⟩
      rw [List.prefix_nil.1 hp]
      exact hn

/-- A top system is made of the one that it was at first and of the transforms made in it since. -/
theorem top_after {first : Matrix} (h : KeepsOpen sink (i + 1) ops s)
    (hd : (after sink ops s).stack.depth = i + 1) (hf : s.stack.levels[i]? = some first) :
    (after sink ops s).stack.top = (transformsAt sink (i + 1) ops s).foldl (· * ·) first := by
  have htop := CoordinateStack.getElem?_levels_top hd
  rw [getElem?_levels_after h, hf] at htop
  exact (Option.some.inj htop).symm

/-! ## Counting -/

/-- Where no more is closed than opened up to any point, the systems are counted by openings and
closings. -/
theorem depth_after_add (sink : Sink σ) (s : Session σ)
    (h : ∀ p, p <+: ops → p.count .pop ≤ p.count .push) :
    (after sink ops s).stack.depth + ops.count .pop = s.stack.depth + ops.count .push := by
  induction ops using List.reverseRecOn with
  | nil => rfl
  | append_singleton ops op ih =>
    have hops := ih fun p hp => h p (hp.trans (List.prefix_append ..))
    have hop : op = .pop → 1 < (after sink ops s).stack.depth := by
      rintro rfl
      have hle := h (ops ++ [.pop]) List.prefix_rfl
      have hs : 0 < s.stack.depth := Nat.succ_pos _
      simp at hle
      omega
    have hstep := depth_execute_add sink _ hop
    rw [after_concat, List.count_append, List.count_append]
    omega

/-- A run that never closes more than it has opened keeps all systems open that it found. -/
theorem keepsOpen_of_count_le (sink : Sink σ) (s : Session σ)
    (h : ∀ p, p <+: ops → p.count .pop ≤ p.count .push) : KeepsOpen sink s.stack.depth ops s := by
  intro p hp
  have hd := depth_after_add sink s fun q hq => h q (hq.trans hp)
  have := h p hp
  omega

/-! ## Systems below, and systems enclosed -/

/-- Where more systems stay open, none of the transforms is made while there are `n`. -/
theorem transformsAt_eq_nil (h : KeepsOpen sink n ops s) (hi : i < n) :
    transformsAt sink i ops s = [] := by
  induction ops generalizing s with
  | nil => rfl
  | cons op ops ih =>
    obtain ⟨hs, hops⟩ := keepsOpen_cons.1 h
    rw [transformsAt, if_neg (by omega), ih hops]
    rfl

/-- The systems below one that stays open stay as they are. -/
theorem take_levels_after (h : KeepsOpen sink n ops s) :
    (after sink ops s).stack.levels.take (n - 1) = s.stack.levels.take (n - 1) := by
  refine List.ext_getElem? fun i => ?_
  rw [List.getElem?_take, List.getElem?_take]
  split
  · next hi =>
    have hopen : KeepsOpen sink (i + 1) ops s := fun p hp => Nat.le_trans (by omega) (h p hp)
    rw [getElem?_levels_after hopen, transformsAt_eq_nil h (by omega)]
    exact Option.map_id' ..
  · rfl

/-- Enclosed in an opening and a closing, balanced operations leave the systems as they were. -/
theorem stack_after_enclosed (h : Operation.Balanced ops) :
    (after sink (.push :: ops ++ [.pop]) s).stack = s.stack := by
  have hpush : (execute sink .push s).2.stack = s.stack.push := rfl
  rw [after_concat, after_cons]
  generalize (execute sink .push s).2 = inner at hpush
  have hdepth : (after sink ops inner).stack.below.reverse.length = s.stack.depth := by
    have hd := depth_after_add sink inner h.1
    rw [h.2, hpush] at hd
    rw [List.length_reverse]
    exact Nat.succ.inj (Nat.add_right_cancel hd)
  have hlevels := take_levels_after (keepsOpen_of_count_le sink inner h.1)
  rw [hpush, CoordinateStack.levels_push, CoordinateStack.levels_eq (after sink ops inner).stack,
    CoordinateStack.depth_push, Nat.add_sub_cancel, List.take_left' hdepth,
    List.take_left' (CoordinateStack.length_levels _)] at hlevels
  have hbelow : (after sink ops inner).stack.below = s.stack.top :: s.stack.below :=
    List.reverse_inj.1 hlevels
  rw [execute_pop_of_cons sink hbelow]

/-- Balanced operations between an opening and a closing leave all coordinate systems as they were,
and none of the closings fails. In any run that keeps at least `n` systems open, the outermost
`n - 1` stay as they are. And after any run the top system is the one that it was opened as a copy
of, times the transforms made while it was on top since, from left to right. It may also have been
there at the start, and then it is what it was there, times these transforms. -/
theorem nested_frames (sink : Sink σ) (s : Session σ) :
    (∀ ops, Operation.Balanced ops →
      (after sink (.push :: ops ++ [.pop]) s).stack = s.stack ∧
      ∀ before later, .push :: ops ++ [.pop] = before ++ .pop :: later →
        (execute sink .pop (after sink before s)).1 = .ok ()) ∧
    (∀ ops n, KeepsOpen sink n ops s →
      (after sink ops s).stack.levels.take (n - 1) = s.stack.levels.take (n - 1)) ∧
    ∀ ops,
      let top := (after sink ops s).stack.top
      let n := (after sink ops s).stack.depth
      (KeepsOpen sink n ops s ∧ ∃ first, s.stack.levels[n - 1]? = some first ∧
        top = (transformsAt sink n ops s).foldl (· * ·) first) ∨
      ∃ before later, ops = before ++ .push :: later ∧
        let outer := after sink before s
        let inner := after sink (before ++ [.push]) s
        outer.stack.depth + 1 = n ∧ KeepsOpen sink n later inner ∧
          top = (transformsAt sink n later inner).foldl (· * ·) outer.stack.top := by
  refine ⟨fun ops h => ⟨stack_after_enclosed h, fun before later hb => ?_⟩,
    fun ops n h => take_levels_after h, fun ops => ?_⟩
  · -- the closing is part of operations that close no more than they open
    have hp : before ++ [.pop] <+: .push :: ops ++ [.pop] := ⟨later, by simp [hb]⟩
    have hle := h.count_enclosed_le hp
    have hd := depth_after_add sink s fun p hq =>
      h.count_enclosed_le (hq.trans ((List.prefix_append _ _).trans hp))
    have hs : 0 < s.stack.depth := Nat.succ_pos _
    rw [List.count_append, List.count_append] at hle
    simp at hle
    rw [execute_pop_fst, if_pos (by omega)]
  · obtain ⟨i, hn⟩ : ∃ i, (after sink ops s).stack.depth = i + 1 := ⟨_, rfl⟩
    dsimp only
    rw [hn]
    rcases exists_opening (Nat.le_of_eq hn.symm) with h | ⟨before, later, rfl, hd, h⟩
    · have hi : i < s.stack.levels.length := by
        rw [CoordinateStack.length_levels]
        exact h [] List.nil_prefix
      have hfirst := List.getElem?_eq_getElem hi
      exact .inl ⟨h, _, hfirst, top_after h hn hfirst⟩
    · rw [after_append, after_cons] at hn ⊢
      refine .inr ⟨before, later, rfl, ?_⟩
      rw [after_concat]
      exact ⟨hd, h, top_after h hn (CoordinateStack.getElem?_levels_push (Nat.succ.inj hd))⟩

/-- A system opened inside of another one, under a sink that takes nothing. -/
theorem nested_frames_scene :
    Operation.Balanced [.move ⟨1.0, 2.0, 3.0⟩, .push, .rotate .y 30.0, .save "a.png", .pop] ∧
      (after ⟨fun _ _ n => (.error .encode, n + 1)⟩
        [.push, .move ⟨1.0, 2.0, 3.0⟩, .push, .rotate .y 30.0, .save "a.png", .pop, .pop]
        (.new .standard 0 : Session Nat)).stack = .new := by
  have hb : Operation.Balanced
      [.move ⟨1.0, 2.0, 3.0⟩, .push, .rotate .y 30.0, .save "a.png", .pop] := by
    refine ⟨fun p hp => ?_, by decide⟩
    rw [← List.mem_inits] at hp
    revert p
    decide
  exact ⟨hb, ((nested_frames _ _).1 _ hb).1⟩

end Session

end SceneScript
