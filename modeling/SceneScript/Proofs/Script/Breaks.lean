import SceneScript.Proofs.Script.Course
import SceneScript.Proofs.Script.Lines
import Mathlib.Data.List.DropRight

/-!
# Streams that break

A stream can break at any byte. The line that the break cuts off is lost, and so reading up to the
break is reading the whole lines before it (`Stream.wholeLines`): both readers take the same course,
and only at its stop does it matter whether the stream ended or broke (`ReadsAsWholeLines`). The
failure comes last, in the place of the complaint about an argument line that did not arrive, and
leaves a reader that yields nothing more.
-/

namespace SceneScript

namespace Stream

variable {bytes line rest : List UInt8}

/-- The bytes up to the last newline. -/
def wholeLines (bytes : List UInt8) : List UInt8 := bytes.rdropWhile (· != newline)

/-- The first line is whole. -/
theorem wholeLines_line (line bytes : List UInt8) :
    wholeLines (line ++ newline :: bytes) = line ++ newline :: wholeLines bytes := by
  rw [wholeLines, wholeLines, List.rdropWhile, List.rdropWhile, List.reverse_append,
    List.reverse_cons, List.append_assoc, List.dropWhile_append]
  split
  · next h =>
    rw [List.isEmpty_iff.1 h]
    simp
  · simp

/-- Whole lines are those that the bytes complete. -/
theorem lines_wholeLines (bytes : List UInt8) :
    lines ⟨wholeLines bytes, none⟩ = (completeLines bytes).1 := by
  induction bytes using induction_lines with
  | rest rest h =>
    have hnil : wholeLines rest = [] :=
      List.rdropWhile_eq_nil_iff.2 fun b hb => bne_iff_ne.2 (ne_of_mem_of_not_mem hb h)
    rw [hnil, completeLines_of_not_mem h]
    rfl
  | line line bytes h ih => rw [wholeLines_line, lines_line h, ih, completeLines_line h]

/-- A stream that breaks has whole lines only. -/
theorem lines_of_breaks (bytes : List UInt8) (reason : String) :
    lines ⟨bytes, some reason⟩ = (completeLines bytes).1 := by
  simp [lines]

end Stream

namespace Reader

variable {r : Reader} {e : ScriptError} {reason : String} {t : ProfileTable} {n : Nat}
  {used rest : List (List UInt8)} {items : List Item} {o : Outcome}

/-- Reading a stream that breaks for a reason, beside reading the whole lines before the break. -/
structure ReadsAsWholeLines (whole broken : Reader) (reason : String) : Prop where
  /-- Where the lines say that the script ends, nothing changes. -/
  quit : MeetsQuit whole → broken.items = whole.items
  /-- The failure stands in the place of an argument line that is missing at the end. -/
  owing : ¬ MeetsQuit whole → ∀ before n k,
    whole.items = before ++ [.error (.missingArguments n k)] →
    broken.items = before ++ [.error (.io reason)]
  /-- Elsewhere the failure comes behind the items. -/
  ended : ¬ MeetsQuit whole →
    (∀ n k, whole.items.getLast? ≠ some (.error (.missingArguments n k))) →
    broken.items = whole.items ++ [.error (.io reason)]
  lineNumber : broken.steps.2.lineNumber = whole.steps.2.lineNumber
  profiles : broken.steps.2.profiles = whole.steps.2.profiles
  recoverable : ∀ e ∈ whole.errors, e.isRecoverable = true
  /-- The failure is the only error that reading cannot recover from. -/
  fatal : ¬ MeetsQuit whole → broken.errors.filter (fun e => !e.isRecoverable) = [.io reason]
  /-- Behind the failure nothing is yielded and nothing changes. -/
  silent : ∀ r, (.error (.io reason), r) ∈ broken.steps.1 → ∀ n, r.ask n = ([], r)
  /-- Where a reader has stopped nothing is yielded and nothing changes. -/
  still : ∀ n, broken.steps.2.ask n = ([], broken.steps.2) ∧
    whole.steps.2.ask n = ([], whole.steps.2)

/-- Whatever is read from a stream that does not break can be recovered from. -/
theorem isRecoverable_of_mem_errors (hs : r.failure = none) (h : e ∈ r.errors) :
    e.isRecoverable = true := by
  cases he : e.isRecoverable with
  | true => rfl
  | false =>
    obtain ⟨reason, rfl⟩ := eq_io_of_not_isRecoverable he
    rw [(items_of_io_mem h).1] at hs
    cases hs

/-- A failure behind items that can be recovered from is the only one. -/
theorem filter_errors_concat {before : List Item} (hb : r.items = before ++ [.error (.io reason)])
    (h : ∀ e ∈ before.filterMap Item.error?, e.isRecoverable = true) :
    r.errors.filter (fun e => !e.isRecoverable) = [.io reason] := by
  have hnone : (before.filterMap Item.error?).filter (fun e => !e.isRecoverable) = [] :=
    List.filter_eq_nil_iff.2 fun e he => by simp [h e he]
  rw [errors, hb, List.filterMap_append, List.filter_append, hnone]
  rfl

/-- The errors of a course can be recovered from. -/
theorem Course.isRecoverable (h : Course t n used items o) :
    ∀ e ∈ items.filterMap Item.error?, e.isRecoverable = true := by
  induction h with
  | stop => exact nofun
  | @item t n used item later others o ht _ ih =>
    cases item with
    | ok op => exact ih
    | error e => exact List.forall_mem_cons.2 ⟨ht.isRecoverable rfl, ih⟩

/-- What a course comes to when the stream ends behind its lines and when it breaks there. -/
theorem Course.items_of_breaks (h : Course t n used items o) (hr : o.isOpen = true → rest = [])
    (reason : String) :
    let whole : Reader := ⟨used ++ rest, none, n, t, false⟩
    let broken : Reader := ⟨used ++ rest, some reason, n, t, false⟩
    MeetsQuit whole ∧ whole.items = items ∧ broken.items = items ∨
      ¬ MeetsQuit whole ∧ broken.items = items ++ [.error (.io reason)] ∧
        (whole.items = items ∨ ∃ m k, whole.items = items ++ [.error (.missingArguments m k)]) := by
  intro whole broken
  have hquit : MeetsQuit whole ↔ o = .quit := h.meetsQuit_iff none rest hr
  have hwhole : whole.items = _ := h.items_eq none rest hr
  have hbroken : broken.items = _ := h.items_eq (some reason) rest hr
  rw [hquit, hwhole, hbroken]
  cases o with
  | item item => exact absurd rfl (h.ne_item item)
  | quit => exact .inl ⟨rfl, List.append_nil items, List.append_nil items⟩
  | ended => exact .inr ⟨nofun, rfl, .inl (List.append_nil items)⟩
  | owing k => exact .inr ⟨nofun, rfl, .inr ⟨_, k, rfl⟩⟩

/-- Reading up to a break is reading the whole lines before it. -/
theorem Course.readsAsWholeLines (h : Course t n used items o) (hr : o.isOpen = true → rest = [])
    (reason : String) :
    ReadsAsWholeLines ⟨used ++ rest, none, n, t, false⟩ ⟨used ++ rest, some reason, n, t, false⟩
      reason := by
  have hcases := h.items_of_breaks hr reason
  have hmissing := h.missingArguments_not_mem
  constructor
  · intro hm
    obtain ⟨-, hwhole, hbroken⟩ | ⟨hnot, -⟩ := hcases
    · exact hbroken.trans hwhole.symm
    · exact absurd hm hnot
  · intro hnot before m k hlast
    obtain ⟨hm, -⟩ | ⟨-, hbroken, hwhole | ⟨m', k', hwhole⟩⟩ := hcases
    · exact absurd hm hnot
    · -- the items themselves have no such error
      have hmem : .error (.missingArguments m k) ∈ items := by
        rw [← hwhole, hlast]
        exact List.mem_concat_self
      exact absurd hmem (hmissing m k)
    · rw [hwhole] at hlast
      rw [hbroken, (List.append_inj' hlast rfl).1]
  · intro hnot hlast
    obtain ⟨hm, -⟩ | ⟨-, hbroken, hwhole | ⟨m, k, hwhole⟩⟩ := hcases
    · exact absurd hm hnot
    · rw [hbroken, hwhole]
    · refine absurd ?_ (hlast m k)
      rw [hwhole]
      exact List.getLast?_concat
  · rw [h.steps_snd none rest hr, h.steps_snd (some reason) rest hr]
    cases o <;> rfl
  · rw [h.steps_snd none rest hr, h.steps_snd (some reason) rest hr]
    cases o <;> rfl
  · exact fun e => isRecoverable_of_mem_errors rfl
  · intro hnot
    obtain ⟨hm, -⟩ | ⟨-, hbroken, -⟩ := hcases
    · exact absurd hm hnot
    · exact filter_errors_concat hbroken h.isRecoverable
  · intro r hmem
    obtain ⟨before, hn, -⟩ := exists_next_of_mem_steps hmem
    exact ask_of_next (next_of_finished (finished_of_not_isRecoverable hn rfl).1)
  · intro m
    rw [h.steps_snd none rest hr, h.steps_snd (some reason) rest hr]
    exact ⟨ask_of_next (result_snd_next h.ne_item ..) m,
      ask_of_next (result_snd_next h.ne_item ..) m⟩

/-- A stream that breaks reads as its whole lines, wherever it breaks. -/
theorem broken_reads_as_whole_lines (bytes : List UInt8) (n : Nat) (reason : String) :
    ReadsAsWholeLines (ofStream ⟨Stream.wholeLines (bytes.take n), none⟩)
      (ofStream ⟨bytes.take n, some reason⟩) reason := by
  obtain ⟨used, rest, items, o, hl, hc, hr⟩ :=
    exists_course .empty 0 (Stream.completeLines (bytes.take n)).1
  rw [ofStream, ofStream, Stream.lines_wholeLines, Stream.lines_of_breaks, hl]
  exact hc.readsAsWholeLines hr reason

/-- A break inside an argument line: the command is lost, and only the failure is reported. -/
example : (ofStream ⟨(Utf8.encode "push\nmove\n1 2 3\n".toList).take 12, some "lost"⟩).items =
    [.ok .push, .error (.io "lost")] := by decide +kernel

end Reader

end SceneScript
