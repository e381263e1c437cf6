import SceneScript.Proofs.Script.Isolation
import SceneScript.Proofs.Script.Items
import SceneScript.Session

/-!
# Scripts as they are read

A script that is carried out while it is read goes command by command: what one command asks for is
done before the next one is read (`Interleaves`, `interleaves_executeItems`). It comes to the same
as reading the script first and carrying out its operations afterwards
(`executeScript_agrees_executeAll`). An error costs one failure and does nothing to the session, and
a stream that breaks ends the script, since nothing is read behind the break. So the two runs go
side by side along the reader, the one ahead by the errors so far (`executeItems_items_eq`).
-/

namespace SceneScript

/-- The tally when more commands have failed. -/
def Tally.lose (t : Tally) (n : Nat) : Tally := { t with failed := t.failed + n }

namespace Session

variable {σ : Type} {sink : Sink σ}

/-! ## One command after the other -/

/-- What reading and carrying out in turn comes to from a reader and a run on: each command is read
when the one before has been carried out. -/
inductive Interleaves (sink : Sink σ) :
    Reader → Tally × Session σ → Except SessionError Tally × Session σ → Prop
  | done : r.next = (none, last) → Interleaves sink r run (.ok run.1, run.2)
  | operation : r.next = (some (.ok op), r') → Interleaves sink r' (advance sink run op) out →
      Interleaves sink r run out
  | unread : r.next = (some (.error e), r') → e.isRecoverable = true →
      Interleaves sink r' (run.1.lose 1, run.2) out → Interleaves sink r run out
  | broken : r.next = (some (.error e), r') → e.isRecoverable = false →
      Interleaves sink r run (.error (.script e), run.2)

/-- A script is carried out command by command: the next command is read when the one before has
been carried out. -/
theorem executeItems_items (sink : Sink σ) (r : Reader) (run : Tally × Session σ) :
    executeItems sink r.items run =
      match r.next with
      | (none, _) => (.ok run.1, run.2)
      | (some (.ok op), r') => executeItems sink r'.items (advance sink run op)
      | (some (.error e), r') =>
        if e.isRecoverable then executeItems sink r'.items (run.1.lose 1, run.2)
        else (.error (.script e), run.2) := by
  obtain ⟨tally, s⟩ := run
  cases hn : r.next with
  | mk item? r' =>
    cases item? with
    | none =>
      rw [Reader.items_of_none hn]
      rfl
    | some item =>
      rw [Reader.items_of_some hn]
      cases item <;> rfl

/-- The items of a script are carried out while they are read. -/
theorem interleaves_executeItems (sink : Sink σ) (r : Reader) (run : Tally × Session σ) :
    Interleaves sink r run (executeItems sink r.items run) := by
  induction r using Reader.induction_next generalizing run with
  | stop r last hn =>
    rw [executeItems_items, hn]
    exact .done hn
  | step r item r' hn ih =>
    rw [executeItems_items, hn]
    cases item with
    | ok op => exact .operation hn (ih _)
    | error e =>
      dsimp only
      cases he : e.isRecoverable with
      | true => exact .unread hn he (ih _)
      | false => exact .broken hn he

/-- Failures that are counted already do not change what an operation does. -/
theorem advance_lose (sink : Sink σ) (run : Tally × Session σ) (n : Nat) (op : Operation) :
    advance sink (run.1.lose n, run.2) op =
      ((advance sink run op).1.lose n, (advance sink run op).2) := by
  unfold advance
  obtain ⟨result, s⟩ := execute sink op run.2
  cases result with
  | ok => rfl
  | error =>
    dsimp only [Tally.count, Tally.lose]
    rw [Nat.add_right_comm]

/-- Carrying out a script as it is read, with `n` failures ahead, leaves the session that its
operations leave. It ends with the failure of the stream if there is one, and else with the tally of
the operations and a failure more for each error. -/
theorem executeItems_items_eq (sink : Sink σ) (r : Reader) (run : Tally × Session σ) (n : Nat) :
    executeItems sink r.items (run.1.lose n, run.2) =
      (match r.errors.find? (!·.isRecoverable) with
        | some e => .error (.script e)
        | none => .ok ((r.operations.foldl (advance sink) run).1.lose (n + r.errors.length)),
        (r.operations.foldl (advance sink) run).2) := by
  induction r using Reader.induction_next generalizing run n with
  | stop r last hn =>
    rw [executeItems_items, hn, Reader.errors, Reader.operations, Reader.items_of_none hn]
    rfl
  | step r item r' hn ih =>
    rw [executeItems_items, hn, Reader.errors, Reader.operations, Reader.items_of_some hn]
    cases item with
    | ok op =>
      dsimp only
      rw [advance_lose, ih]
      rfl
    | error e =>
      cases he : e.isRecoverable with
      | true =>
        have hlose : (run.1.lose n).lose 1 = run.1.lose (n + 1) := rfl
        have herror : Item.error? (.error e) = some e := rfl
        dsimp only
        rw [if_pos he, hlose, ih, List.filterMap_cons_some herror,
          List.find?_cons_of_neg (by simp [he]), List.length_cons, Nat.add_right_comm n 1,
          ← Nat.add_assoc]
        rfl
      | false =>
        -- the stream broke, so no operation is behind the error
        have hnil : r'.items = [] := Reader.items_of_none
          (Reader.next_of_finished (Reader.finished_of_not_isRecoverable hn he).1)
        dsimp only
        rw [if_neg (by simp [he]), hnil, List.filterMap_cons_some
          (show Item.error? (.error e) = some e from rfl), List.find?_cons_of_pos (by simp [he])]
        rfl

/-! ## Whole scripts -/

/-- Every operation of a run is carried out or fails. -/
theorem tally_foldl_advance (sink : Sink σ) (ops : List Operation) (run : Tally × Session σ) :
    (ops.foldl (advance sink) run).1.executed + (ops.foldl (advance sink) run).1.failed =
      run.1.executed + run.1.failed + ops.length := by
  induction ops generalizing run with
  | nil => rfl
  | cons op ops ih =>
    rw [List.foldl_cons, ih, List.length_cons]
    unfold advance
    obtain ⟨result, s⟩ := execute sink op run.2
    cases result <;> simp only [Tally.count] <;> omega

/-- What a script holds is what its reader yields. -/
theorem contents_ofStream (stream : Stream) :
    (ScriptContents.ofStream stream).operations = (Reader.ofStream stream).operations ∧
      (ScriptContents.ofStream stream).errors = (Reader.ofStream stream).errors := by
  rw [ScriptContents.ofStream_eq]
  refine ⟨rfl, ?_⟩
  rw [Reader.errors]
  congr 1

/-- Carrying out a script as it is read agrees with carrying out the operations that it holds.
Reading and carrying out go in turn, and the session is the same at the end. When the stream does
not break, as many operations have been carried out, and there is one failure more for each error,
so every operation and every error is counted once. When it breaks, the run ends with that failure,
behind exactly the operations that were read before it. -/
theorem executeScript_agrees_executeAll (sink : Sink σ) (stream : Stream) (s : Session σ) :
    let contents := ScriptContents.ofStream stream
    let batch := executeAll sink contents.operations s
    let run := executeScript sink (.ofStream stream) s
    Interleaves sink (.ofStream stream) (.zero, s) run ∧ run.2 = batch.2 ∧
      ((∀ reason, .io reason ∉ contents.errors) →
        run.1 = .ok ⟨batch.1.executed, batch.1.failed + contents.errors.length⟩ ∧
          batch.1.executed + (batch.1.failed + contents.errors.length) =
            contents.operations.length + contents.errors.length) ∧
      ∀ reason, .io reason ∈ contents.errors →
        stream.failure = some reason ∧ run.1 = .error (.script (.io reason)) ∧
          ∃ before, (Reader.ofStream stream).items = before ++ [.error (.io reason)] ∧
            run.2 = (executeAll sink (before.filterMap Except.toOption) s).2 := by
  obtain ⟨hops, herrs⟩ := contents_ofStream stream
  have hrun : executeScript sink (.ofStream stream) s = _ :=
    executeItems_items_eq sink (.ofStream stream) (.zero, s) 0
  have htally := tally_foldl_advance sink (Reader.ofStream stream).operations (.zero, s)
  dsimp only
  rw [hops, herrs, executeAll]
  refine ⟨interleaves_executeItems sink _ _, congrArg Prod.snd hrun, fun hio => ?_,
    fun reason hio => ?_⟩
  · have hnone : (Reader.ofStream stream).errors.find? (!·.isRecoverable) = none := by
      refine List.find?_eq_none.2 fun e he hr => ?_
      obtain ⟨reason, rfl⟩ := Reader.eq_io_of_not_isRecoverable (by simpa using hr)
      exact hio reason he
    rw [hrun, hnone]
    refine ⟨?_, ?_⟩
    · rw [Nat.zero_add]
      rfl
    · rw [← Nat.add_assoc, htally]
      exact congrArg (· + _) (Nat.zero_add _)
  · obtain ⟨hs, before, hb, ho, he⟩ := Reader.items_of_io_mem hio
    have hsome : (Reader.ofStream stream).errors.find? (!·.isRecoverable) = some (.io reason) := by
      rw [Reader.errors, hb, List.filterMap_append, List.find?_append,
        List.find?_eq_none.2 fun e hm => by simp [he e hm]]
      rfl
    refine ⟨hs, ?_, before, hb, ?_⟩
    · rw [hrun, hsome]
    · rw [hrun, ho, executeAll]

end Session

end SceneScript
