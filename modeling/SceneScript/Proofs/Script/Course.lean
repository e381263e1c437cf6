import SceneScript.Proofs.Script.Names

/-!
# The course of a reading

A reader goes from item to item until it stops, and the lines in front of it say how: `Course` is
`Takes` for all items up to the stop. Every reader has a course (`exists_course`), which says what
the reader yields and where it is left, whether the stream ends or breaks behind the lines
(`Course.items_eq`, `Course.steps_snd`).

A script that says where it ends (`MeetsQuit`) is one whose course stops at `quit`
(`Course.meetsQuit_iff`).
-/

namespace SceneScript

/-- The names defined once some items have been read. -/
def ProfileTable.afterItems (profiles : ProfileTable) (items : List Item) : ProfileTable :=
  items.foldl ProfileTable.afterItem profiles

namespace Reader

/-- The lines that all items take when `n` lines have been read, the items, and how it stops. -/
inductive Course : ProfileTable → Nat → List (List UInt8) → List Item → Outcome → Prop
  | stop : Takes t n used o → (∀ item, o ≠ .item item) → Course t n used [] o
  | item : Takes t n used (.item item) →
      Course (t.afterItem item) (n + used.length) later others o →
      Course t n (used ++ later) (item :: others) o

variable {failure : Option String} {t : ProfileTable} {n m : Nat} {line : List UInt8}
  {used later rest : List (List UInt8)} {items : List Item} {item : Item} {o p : Outcome}
  {r r' last : Reader}

/-! ## Stopping -/

/-- The next command of the reader is `quit`. -/
def Quits (r : Reader) : Prop :=
  r.finished = false ∧ ∃ idle command rest,
    r.lines = idle ++ Utf8.encode command :: rest ∧
    (∀ line ∈ idle, ∃ t word, line = Utf8.encode t ∧ Text.Trims t word ∧ Idle word) ∧
    Text.Trims command Keyword.quit.text.toList

/-- The reader comes to a `quit`, however many items are before it. -/
def MeetsQuit (r : Reader) : Prop := ∃ n, Quits (r.ask n).2

/-- A reader that has stopped stays as it is. -/
theorem result_snd_next (ho : ∀ item, o ≠ .item item) (failure : Option String) (n : Nat)
    (t : ProfileTable) (rest : List (List UInt8)) :
    (o.result failure n t rest).2.next = (none, (o.result failure n t rest).2) := by
  cases o with
  | item item => exact absurd rfl (ho item)
  | quit => rfl
  | ended | owing => cases failure <;> rfl

/-- Only `quit` stops a reader without an item and for good. -/
theorem result_quits_iff (failure : Option String) (n : Nat) (t : ProfileTable)
    (rest : List (List UInt8)) :
    ((o.result failure n t rest).1 = none ∧ (o.result failure n t rest).2.finished = true) ↔
      o = .quit := by
  cases o with
  | item item => exact ⟨fun h => (nomatch h.1), nofun⟩
  | quit => exact ⟨fun _ => rfl, fun _ => ⟨rfl, rfl⟩⟩
  | ended | owing =>
    refine ⟨fun ⟨hitem, hlast⟩ => ?_, nofun⟩
    cases failure <;> simp [Outcome.result, atEnd] at hitem hlast

/-- Only the keyword `quit` ends a script. -/
theorem command_eq_quit_iff {k : Keyword} : k.command = .quit ↔ k = .quit := by
  cases k <;> simp [Keyword.command]

/-- Lines that are taken up to a `quit` are idle before it. -/
theorem Takes.exists_quit (h : Takes t n used o) (ho : o = .quit) :
    ∃ idle command, used = idle ++ [Utf8.encode command] ∧
      (∀ line ∈ idle, ∃ t word, line = Utf8.encode t ∧ Text.Trims t word ∧ Idle word) ∧
      Text.Trims command Keyword.quit.text.toList := by
  induction h with
  | ended | undecodable | unknown | alone | withArguments | owing => cases ho
  | @passedOver line n used o hl _ ih =>
    obtain ⟨idle, command, rfl, hidle, hcommand⟩ := ih ho
    exact ⟨line :: idle, command, rfl,
      List.forall_mem_cons.2 ⟨heading_eq_passedOver_iff.1 hl, hidle⟩, hcommand⟩
  | quit hl hk =>
    obtain ⟨command, rfl, hcommand⟩ := heading_eq_keyword_iff.1 hl
    obtain rfl := command_eq_quit_iff.1 hk
    exact ⟨[], command, rfl, nofun, hcommand⟩

/-- The next command is `quit` when it makes the reader stop without an item and for good. -/
theorem quits_iff :
    Quits r ↔ r.finished = false ∧ r.next.1 = none ∧ r.next.2.finished = true := by
  constructor
  · rintro ⟨hf, idle, command, rest, hl, hidle, hcommand⟩
    have ht : Takes r.profiles (r.lineNumber + idle.length) [Utf8.encode command] .quit :=
      .quit (heading_keyword hcommand) rfl
    have hn := (ht.append_idle fun line hline =>
      heading_eq_passedOver_iff.2 (hidle line hline)).nextItem r.failure rest nofun
    rw [List.append_assoc, List.singleton_append, ← hl] at hn
    refine ⟨hf, ?_⟩
    rw [next, hf, if_neg Bool.false_ne_true, hn]
    exact ⟨rfl, rfl⟩
  · rintro ⟨hf, hn⟩
    obtain ⟨used, rest, o, hl, ht, -, hnext⟩ := next_takes hf
    rw [hnext] at hn
    obtain ⟨idle, command, rfl, hidle, hcommand⟩ :=
      ht.exists_quit ((result_quits_iff _ _ _ _).1 hn)
    exact ⟨hf, idle, command, rest, by rw [hl, List.append_assoc]; rfl, hidle, hcommand⟩

/-- Asking once more is asking the reader behind the next item. -/
theorem ask_succ_snd (r : Reader) (n : Nat) : (r.ask (n + 1)).2 = (r.next.2.ask n).2 := by
  induction n with
  | zero => rfl
  | succ n ih =>
    rw [ask, ih]
    rfl

/-- However often it is asked, a reader that stays as it is yields nothing. -/
theorem ask_of_next (h : r.next = (none, r)) (n : Nat) : r.ask n = ([], r) := by
  induction n with
  | zero => rfl
  | succ n ih =>
    rw [ask, ih, h]
    rfl

/-- A reader comes to a `quit` at once, or behind its next item. -/
theorem meetsQuit_iff_or : MeetsQuit r ↔ Quits r ∨ MeetsQuit r.next.2 := by
  constructor
  · rintro ⟨_ | n, h⟩
    · exact .inl h
    · exact .inr ⟨n, ask_succ_snd r n ▸ h⟩
  · rintro (h | ⟨n, h⟩)
    · exact ⟨0, h⟩
    · exact ⟨n + 1, ask_succ_snd r n ▸ h⟩

/-- A reader that stays as it is comes to no `quit`. -/
theorem not_meetsQuit_of_next (h : r.next = (none, r)) : ¬ MeetsQuit r := by
  rintro ⟨n, hq⟩
  rw [ask_of_next h, quits_iff, h] at hq
  exact Bool.false_ne_true (hq.1.symm.trans hq.2.2)

/-- Each item that a reader yields is the next one of a reader of the same stream. -/
theorem exists_next_of_mem_steps (h : (item, r') ∈ r.steps.1) :
    ∃ before : Reader, before.next = (some item, r') ∧ before.failure = r.failure := by
  induction r using induction_next with
  | stop r last hn =>
    rw [steps_of_none hn] at h
    cases h
  | step r first next hn ih =>
    rw [steps_of_some hn] at h
    rcases List.mem_cons.1 h with heq | h
    · cases heq
      exact ⟨r, hn, rfl⟩
    · obtain ⟨before, hb, hs⟩ := ih h
      exact ⟨before, hb, hs.trans (failure_next hn)⟩

/-! ## Courses -/

/-- An item leaves the lines behind its own to the next reader. -/
theorem Takes.next_append (h : Takes t n used (.item item)) (failure : Option String)
    (later rest : List (List UInt8)) :
    (⟨used ++ later ++ rest, failure, n, t, false⟩ : Reader).next =
      (some item, ⟨later ++ rest, failure, n + used.length, t.afterItem item, false⟩) := by
  rw [List.append_assoc]
  exact h.nextItem failure (later ++ rest) nofun

/-- Every reader has a course. -/
theorem exists_course (t : ProfileTable) (n : Nat) (lines : List (List UInt8)) :
    ∃ used rest items o, lines = used ++ rest ∧ Course t n used items o ∧
      (o.isOpen = true → rest = []) := by
  obtain ⟨used, rest, o, rfl, ht, hr⟩ := exists_takes t n lines
  by_cases ho : ∃ item, o = .item item
  · obtain ⟨item, rfl⟩ := ho
    have hu := ht.length_pos nofun
    obtain ⟨later, rest', items, o, rfl, hc, hr'⟩ :=
      exists_course (t.afterItem item) (n + used.length) rest
    exact ⟨used ++ later, rest', item :: items, o, (List.append_assoc ..).symm, .item ht hc, hr'⟩
  · exact ⟨used, rest, [], o, rfl, .stop ht (not_exists.1 ho), hr⟩
termination_by lines.length
decreasing_by
  simp_all only [List.length_append]
  omega

/-- A course stops at something else than an item. -/
theorem Course.ne_item (h : Course t n used items o) (item : Item) : o ≠ .item item := by
  induction h with
  | stop _ ho => exact ho item
  | item _ _ ih => exact ih

/-- A reader at the start of a course yields its items, and what there is at the stop; then it is
left there. -/
theorem Course.steps_eq (h : Course t n used items o) (failure : Option String)
    (rest : List (List UInt8)) (hr : o.isOpen = true → rest = []) :
    let stop := o.result failure (n + used.length) (t.afterItems items) rest
    let r : Reader := ⟨used ++ rest, failure, n, t, false⟩
    r.items = items ++ stop.1.toList ∧ r.steps.2 = stop.2 := by
  induction h with
  | @stop t n used o ht ho =>
    intro stop r
    have hn : r.next = stop := ht.nextItem failure rest hr
    have hstill : stop.2.next = (none, stop.2) := result_snd_next ho ..
    -- the stop itself may yield an error, and nothing comes behind it
    rcases hs : stop with ⟨_ | item, last⟩
    · rw [hs] at hn
      exact ⟨items_of_none hn, congrArg Prod.snd (steps_of_none hn)⟩
    · rw [hs] at hn hstill
      rw [items_of_some hn, steps_of_some hn, items_of_none hstill, steps_of_none hstill]
      exact ⟨rfl, rfl⟩
  | @item t n used item later items o ht _ ih =>
    intro stop r
    have hn := ht.next_append failure later rest
    obtain ⟨hitems, hlast⟩ := ih hr
    rw [items_of_some hn, steps_of_some hn, hitems, hlast, Nat.add_assoc, ← List.length_append]
    exact ⟨rfl, rfl⟩

theorem Course.items_eq (h : Course t n used items o) (failure : Option String)
    (rest : List (List UInt8)) (hr : o.isOpen = true → rest = []) :
    (⟨used ++ rest, failure, n, t, false⟩ : Reader).items =
      items ++
        (o.result failure (n + used.length) (t.afterItems items) rest).1.toList :=
  (h.steps_eq failure rest hr).1

theorem Course.steps_snd (h : Course t n used items o) (failure : Option String)
    (rest : List (List UInt8)) (hr : o.isOpen = true → rest = []) :
    (⟨used ++ rest, failure, n, t, false⟩ : Reader).steps.2 =
      (o.result failure (n + used.length) (t.afterItems items) rest).2 :=
  (h.steps_eq failure rest hr).2

/-- A reader comes to a `quit` when its course stops there. -/
theorem Course.meetsQuit_iff (h : Course t n used items o) (failure : Option String)
    (rest : List (List UInt8)) (hr : o.isOpen = true → rest = []) :
    MeetsQuit ⟨used ++ rest, failure, n, t, false⟩ ↔ o = .quit := by
  induction h with
  | @stop t n used o ht ho =>
    have hn : (⟨used ++ rest, failure, n, t, false⟩ : Reader).next =
        o.result failure (n + used.length) t rest := ht.nextItem failure rest hr
    have hstill := not_meetsQuit_of_next (result_snd_next ho failure (n + used.length) t rest)
    rw [meetsQuit_iff_or, quits_iff, hn, or_iff_left hstill, and_iff_right rfl, result_quits_iff]
  | @item t n used item later items o ht _ ih =>
    -- a reader that yields an item is not at a `quit`, so only the later one can come to it
    rw [meetsQuit_iff_or, quits_iff, ht.next_append, or_iff_right fun h => nomatch h.2.1]
    exact ih hr

/-- In a stream that does not break, a reader comes to a `quit` when it has stopped for good at the
end. -/
theorem meetsQuit_iff_finished (hs : r.failure = none) (hf : r.finished = false) :
    MeetsQuit r ↔ r.steps.2.finished = true := by
  obtain ⟨lines, failure, n, t, finished⟩ := r
  obtain rfl : failure = none := hs
  obtain rfl : finished = false := hf
  obtain ⟨used, rest, items, o, rfl, hc, hr⟩ := exists_course t n lines
  rw [hc.meetsQuit_iff none rest hr, hc.steps_snd none rest hr]
  cases o with
  | item item => exact absurd rfl (hc.ne_item item)
  | quit => exact ⟨fun _ => rfl, fun _ => rfl⟩
  | ended | owing => exact ⟨nofun, nofun⟩

/-- An argument line is never missing for an item that took its lines. -/
theorem Takes.ne_missingArguments (h : Takes t n used o) (m : Nat) (k : Keyword) :
    o ≠ .item (.error (.missingArguments m k)) := by
  induction h with
  | passedOver _ _ ih => exact ih
  | withArguments =>
    intro ho
    rcases error_of_argumentItem (Outcome.item.inj ho) with he | ⟨fault, he⟩
    · cases he
    · cases fault <;> cases he
  | _ => nofun

/-- A command that lacks its argument line is none of the items of a course: it is what there is at
the stop. -/
theorem Course.missingArguments_not_mem (h : Course t n used items o) (m : Nat) (k : Keyword) :
    .error (.missingArguments m k) ∉ items := by
  induction h with
  | stop => exact List.not_mem_nil
  | item ht _ ih =>
    refine fun hmem => ?_
    rcases List.mem_cons.1 hmem with rfl | hmem
    · exact ht.ne_missingArguments m k rfl
    · exact ih hmem

end Reader

end SceneScript
