import SceneScript.Proofs.Script.Taking

/-!
# The items of a reader

What a reader yields is its next item and then what the reader behind it yields (`items_of_none`,
`items_of_some`). Operations and errors are parted from each other, each in order (`operations`,
`errors`).

Every error but the failure of the stream leaves the reader able to go on. Behind that failure
nothing is read (`finished_of_not_isRecoverable`), so it is the last item (`items_of_io_mem`).
-/

namespace SceneScript

/-- What an item says of an error. -/
def Item.error? : Item → Option ScriptError
  | .error e => some e
  | .ok _ => none

namespace Reader

/-- The operations that a reader yields. -/
def operations (r : Reader) : List Operation := r.items.filterMap Except.toOption

/-- The errors that a reader yields. -/
def errors (r : Reader) : List ScriptError := r.items.filterMap Item.error?

variable {r r' last : Reader} {item : Item} {e : ScriptError}

/-! ## Items and what is behind them -/

/-- A reader that yields nothing has no items. -/
theorem items_of_none (h : r.next = (none, last)) : r.items = [] := by
  rw [items, steps_of_none h]
  rfl

/-- The items of a reader are the next one and those behind it. -/
theorem items_of_some (h : r.next = (some item, r')) : r.items = item :: r'.items := by
  rw [items, steps_of_some h]
  rfl

/-- Only the failure of the stream cannot be recovered from. -/
theorem eq_io_of_not_isRecoverable (h : e.isRecoverable = false) : ∃ reason, e = .io reason := by
  cases e with
  | io reason => exact ⟨reason, rfl⟩
  | _ => cases h

/-- The errors that an argument line can lead to. -/
theorem error_of_argumentItem {k : Keyword}
    {read : ProfileTable → List Char → Except ArgumentFault Operation} {profiles : ProfileTable}
    {n : Nat} {line : List UInt8} (h : argumentItem k read profiles n line = .error e) :
    e = .invalidEncoding n ∨ ∃ fault, e = argumentError k n fault := by
  unfold argumentItem at h
  cases hd : Utf8.decode line with
  | error =>
    rw [hd] at h
    exact .inl (Except.error.inj h).symm
  | ok text =>
    rw [hd] at h
    dsimp only at h
    cases hr : read profiles text with
    | ok op =>
      rw [hr] at h
      cases h
    | error fault =>
      rw [hr] at h
      exact .inr ⟨fault, (Except.error.inj h).symm⟩

/-- What an argument line leads to can be recovered from. -/
theorem isRecoverable_of_argumentItem {k : Keyword}
    {read : ProfileTable → List Char → Except ArgumentFault Operation} {profiles : ProfileTable}
    {n : Nat} {line : List UInt8} (h : argumentItem k read profiles n line = .error e) :
    e.isRecoverable = true := by
  rcases error_of_argumentItem h with rfl | ⟨fault, rfl⟩
  · rfl
  · cases fault <;> rfl

/-- Lines lead to errors that can be recovered from. -/
theorem Takes.isRecoverable {profiles : ProfileTable} {n : Nat} {used : List (List UInt8)}
    {o : Outcome} (h : Takes profiles n used o) (ho : o = .item (.error e)) :
    e.isRecoverable = true := by
  induction h with
  | ended | quit | owing => cases ho
  | passedOver _ _ ih => exact ih ho
  | undecodable | unknown =>
    cases ho
    rfl
  | alone => cases ho
  | withArguments => exact isRecoverable_of_argumentItem (Outcome.item.inj ho)

/-- Where the lines end, the error that cannot be recovered from is the failure of the stream, and
it stops the reader. -/
theorem finished_of_atEnd {failure : Option String} {n : Nat} {profiles : ProfileTable}
    {otherwise : Option Item} (ho : ∀ e, otherwise = some (.error e) → e.isRecoverable = true)
    (h : atEnd failure n profiles otherwise = (some (.error e), r'))
    (he : e.isRecoverable = false) :
    r'.finished = true ∧ ∃ reason, e = .io reason ∧ failure = some reason := by
  cases failure with
  | none =>
    rw [ho e (Prod.mk.inj h).1] at he
    cases he
  | some reason =>
    obtain ⟨hi, rfl⟩ := Prod.mk.inj h
    cases hi
    exact ⟨rfl, reason, rfl, rfl⟩

/-- Behind an error that cannot be recovered from nothing is read: it is the failure of the
stream. -/
theorem finished_of_not_isRecoverable (h : r.next = (some (.error e), r'))
    (he : e.isRecoverable = false) :
    r'.finished = true ∧ ∃ reason, e = .io reason ∧ r.failure = some reason := by
  cases hf : r.finished with
  | true =>
    rw [next_of_finished hf] at h
    cases h
  | false =>
    obtain ⟨used, rest, o, -, ht, -, hn⟩ := next_takes hf
    rw [h] at hn
    cases o with
    | item i =>
      obtain ⟨hi, -⟩ := Prod.mk.inj hn
      rw [ht.isRecoverable (congrArg Outcome.item (Option.some.inj hi).symm)] at he
      cases he
    | quit => cases hn
    | ended =>
      refine finished_of_atEnd (fun e h => ?_) hn.symm he
      cases h
    | owing k =>
      refine finished_of_atEnd (fun e h => ?_) hn.symm he
      cases h
      rfl

/-- An item leaves the stream as it is. -/
theorem failure_next (h : r.next = (some item, r')) : r'.failure = r.failure := by
  cases hf : r.finished with
  | true =>
    rw [next_of_finished hf] at h
    cases h
  | false =>
    obtain ⟨used, rest, o, -, -, -, hn⟩ := next_takes hf
    rw [h] at hn
    cases o with
    | item i =>
      obtain ⟨-, rfl⟩ := Prod.mk.inj hn
      rfl
    | quit => cases hn
    | ended | owing =>
      cases hs : r.failure <;> rw [hs] at hn <;> cases hn <;> rfl

/-- When the stream breaks under a reader, the break is the last item, and every item before it can
be recovered from. -/
theorem items_of_io_mem {reason : String} (h : .io reason ∈ r.errors) :
    r.failure = some reason ∧ ∃ before, r.items = before ++ [.error (.io reason)] ∧
      before.filterMap Except.toOption = r.operations ∧
      ∀ e ∈ before.filterMap Item.error?, e.isRecoverable = true := by
  induction r using induction_next with
  | stop r last hn =>
    rw [errors, items_of_none hn] at h
    cases h
  | step r item r' hn ih =>
    have hitems := items_of_some hn
    rw [errors, hitems] at h
    cases item with
    | ok op =>
      obtain ⟨hs, before, hb, ho, he⟩ := ih h
      refine ⟨failure_next hn ▸ hs, .ok op :: before, ?_, ?_, he⟩
      · rw [hitems, hb]
        rfl
      · rw [operations, hitems]
        exact congrArg (op :: ·) ho
    | error e =>
      cases he : e.isRecoverable with
      | false =>
        obtain ⟨hf, reason', rfl, hs⟩ := finished_of_not_isRecoverable hn he
        have hnil : r'.items = [] := items_of_none (next_of_finished hf)
        rw [hnil] at h hitems
        obtain rfl : reason = reason' := by simpa [Item.error?] using h
        exact ⟨hs, [], hitems, by rw [operations, hitems]; rfl, nofun⟩
      | true =>
        have h' : .io reason ∈ r'.errors := by
          rcases List.mem_cons.1 (show _ ∈ e :: r'.errors from h) with rfl | h
          · cases he
          · exact h
        obtain ⟨hs, before, hb, ho, hr⟩ := ih h'
        refine ⟨failure_next hn ▸ hs, .error e :: before, ?_, ?_, ?_⟩
        · rw [hitems, hb]
          rfl
        · rw [operations, hitems]
          exact ho
        · exact List.forall_mem_cons.2 ⟨he, hr⟩

end Reader

end SceneScript
