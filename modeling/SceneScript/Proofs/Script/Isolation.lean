import SceneScript.Proofs.Script.Lines
import SceneScript.Proofs.Script.Taking

/-!
# Errors cost their own lines

An error stands for the lines that were read since the item before it (`isSpoilt`). When these lines
are taken out of a script, what is left reads without an error, to the same operations and the same
names. So no error takes a line of another command with it, and none leaves a name behind.

The invariant goes along the items (`steps_withoutSpoilt`): the lines of an operation are read again
as they are, wherever they are numbered from, and the lines of an error are gone.
-/

namespace SceneScript

namespace Reader

/-- The line was read for an item that is an error, where `n` lines had been read before the
first of the items. -/
def isSpoilt (n : Nat) : List (Item × Reader) → Nat → Bool
  | [], _ => false
  | (item, r) :: steps, m =>
    !item.isOk && decide (n < m) && decide (m ≤ r.lineNumber) || isSpoilt r.lineNumber steps m

/-- The lines still to come, without those that are read for an error. -/
def soundLines (r : Reader) : List (List UInt8) :=
  Stream.selectFrom (fun m => !isSpoilt r.lineNumber r.steps.1 m) r.lineNumber r.lines

/-- The reader with the spoilt lines taken out, the next line being line `n + 1`. -/
def withoutSpoilt (r : Reader) (n : Nat) : Reader :=
  { r with lines := r.soundLines, lineNumber := n }

variable {r r' last : Reader} {item : Item} {used : List (List UInt8)} {m : Nat}

/-! ## Lines that are spoilt -/

/-- Only lines that are still to come are spoilt. -/
theorem isSpoilt_of_le (hs : r.failure = none) (h : m ≤ r.lineNumber) :
    isSpoilt r.lineNumber r.steps.1 m = false := by
  induction r using induction_next with
  | stop r last hn =>
    rw [steps_of_none hn]
    rfl
  | step r item r' hn ih =>
    obtain ⟨used, hu, -⟩ := next_uses hs hn
    have hle : m ≤ r'.lineNumber := by
      rw [hu.lineNumber]
      omega
    rw [steps_of_some hn, isSpoilt, ih (hu.failure.trans hs) hle, decide_eq_false (Nat.not_lt.2 h)]
    simp

/-- A script that yields nothing has no line spoilt. -/
theorem soundLines_of_none (h : r.next = (none, last)) : r.soundLines = r.lines := by
  rw [soundLines, steps_of_none h]
  exact Stream.selectFrom_of_all fun _ _ _ => rfl

/-- The lines of an item are spoilt if it is an error, and behind it the lines are spoilt or not as
they are from there. -/
theorem soundLines_of_some (hs : r.failure = none) (h : r.next = (some item, r'))
    (hu : Uses r item r' used) :
    r.soundLines = (if item.isOk then used else []) ++ r'.soundLines := by
  have hs' : r'.failure = none := hu.failure.trans hs
  have hn := hu.lineNumber
  rw [soundLines, steps_of_some h, hu.lines, Stream.selectFrom_append]
  congr 1
  · cases hi : item.isOk with
    | true =>
      refine Stream.selectFrom_of_all fun m hm hm' => ?_
      rw [isSpoilt, isSpoilt_of_le hs' (by omega), hi]
      rfl
    | false =>
      refine Stream.selectFrom_of_none fun m hm hm' => ?_
      rw [isSpoilt, hi, decide_eq_true hm, decide_eq_true (by omega)]
      rfl
  · rw [soundLines, hn]
    refine Stream.selectFrom_congr fun m hm hm' => ?_
    rw [isSpoilt, decide_eq_false (Nat.not_le.2 (by omega : r'.lineNumber < m)), hn]
    simp

/-! ## The whole script -/

/-- Without the spoilt lines a script reads to its operations, wherever the lines are numbered
from, and to the names it has. -/
theorem steps_withoutSpoilt (r : Reader) (hs : r.failure = none) (n : Nat) :
    (r.withoutSpoilt n).items = (r.steps.1.filterMap (·.1.toOption)).map .ok ∧
      (r.withoutSpoilt n).steps.2.profiles = r.steps.2.profiles := by
  induction r using induction_next generalizing n with
  | stop r last h =>
    obtain ⟨last', h', hp⟩ := next_of_none hs h n
    rw [withoutSpoilt, soundLines_of_none h, items, steps_of_none h', steps_of_none h]
    exact ⟨rfl, hp⟩
  | step r item r' h ih =>
    obtain ⟨used, hu, hagain⟩ := next_uses hs h
    have hs' : r'.failure = none := hu.failure.trans hs
    rw [steps_of_some h]
    cases item with
    | error e =>
      -- the lines of the error are gone, and it defined no name
      have hr : r.withoutSpoilt n = r'.withoutSpoilt n := by
        rw [withoutSpoilt, withoutSpoilt, soundLines_of_some hs h hu, hu.failure, hu.finished,
          hu.profiles]
        rfl
      rw [hr]
      exact ih hs' n
    | ok op =>
      have hnext : (r.withoutSpoilt n).next =
          (some (.ok op), r'.withoutSpoilt (n + used.length)) := by
        rw [withoutSpoilt, soundLines_of_some hs h hu]
        exact hagain op rfl r'.soundLines n
      obtain ⟨hi, hp⟩ := ih hs' (n + used.length)
      rw [items, steps_of_some hnext]
      exact ⟨congrArg (List.cons (Except.ok op : Item)) hi, hp⟩

end Reader

namespace ScriptContents

/-- What a script holds, by its items and the names at its end. -/
theorem ofStream_eq (s : Stream) :
    ofStream s =
      ⟨(Reader.ofStream s).items.filterMap Except.toOption,
        (Reader.ofStream s).items.filterMap fun
          | .error e => some e
          | .ok _ => none,
        (Reader.ofStream s).steps.2.profiles⟩ := by
  rw [Reader.items, List.filterMap_map, List.filterMap_map]
  rfl

/-- Errors are isolated: when every line is taken out that was read for an error, what is left
reads to the same operations in the same order, without an error and with the same names. -/
theorem ofStream_select_not_isSpoilt (bytes : List UInt8) :
    ofStream ⟨Stream.select
        (fun m => !Reader.isSpoilt 0 (Reader.ofStream ⟨bytes, none⟩).steps.1 m) bytes, none⟩ =
      { ofStream ⟨bytes, none⟩ with errors := [] } := by
  obtain ⟨hi, hp⟩ := Reader.steps_withoutSpoilt (Reader.ofStream ⟨bytes, none⟩) rfl 0
  have hr : Reader.ofStream ⟨Stream.select
      (fun m => !Reader.isSpoilt 0 (Reader.ofStream ⟨bytes, none⟩).steps.1 m) bytes, none⟩ =
      (Reader.ofStream ⟨bytes, none⟩).withoutSpoilt 0 := by
    rw [Reader.ofStream, Stream.lines_select]
    rfl
  have hops (ops : List Operation) :
      ops.filterMap (Except.toOption ∘ (Except.ok : Operation → Item)) = ops := List.filterMap_some
  rw [ofStream_eq, hr, hi, hp, List.filterMap_map, List.filterMap_map, hops]
  congr 1
  exact List.filterMap_eq_nil_iff.2 fun _ _ => rfl

end ScriptContents

end SceneScript
