import SceneScript.Script.Reader

/-!
# What one item takes

Reading an item takes lines off the front, and which lines these are and what comes of them is
decided by them alone: `Takes` says how, line by line, and `exists_takes` and `Takes.nextItem` say
that a reader does just that. What stands behind the lines is left as it is, but where a script ends
between a command and its arguments nothing may be behind them (`Outcome.isOpen`). Where the lines
are numbered from matters to errors only (`Takes.renumber`).

Every item leaves less to read (`toRead_next`), so what holds along the items holds of all that a
reader yields (`induction_next`, `steps_of_none`, `steps_of_some`). As long as the stream does not
break, an item changes nothing but the lines in front and the names (`next_uses`).
-/

namespace SceneScript

namespace Reader

/-! ## Single lines -/

/-- What a line between commands is. -/
inductive Heading where
  /-- Nothing: blank, or a comment. -/
  | passedOver
  /-- No text. -/
  | undecodable
  /-- Text that is no keyword. -/
  | unknown (word : List Char)
  /-- A keyword. -/
  | keyword (keyword : Keyword)
deriving Repr, DecidableEq

/-- What a line between commands is. -/
def heading (line : List UInt8) : Heading :=
  match Utf8.decode line with
  | .error _ => .undecodable
  | .ok text =>
    if isPassedOver (Text.trim text) then .passedOver
    else match Keyword.ofText? (String.ofList (Text.trim text)) with
      | none => .unknown (Text.trim text)
      | some keyword => .keyword keyword

/-- The item of a command whose argument line is line `n`. -/
def argumentItem (keyword : Keyword)
    (read : ProfileTable → List Char → Except ArgumentFault Operation) (profiles : ProfileTable)
    (n : Nat) (line : List UInt8) : Item :=
  match Utf8.decode line with
  | .error _ => .error (.invalidEncoding n)
  | .ok text => (read profiles text).mapError (argumentError keyword n)

end Reader

/-- The names defined once an item has been read: an error defines none. -/
def ProfileTable.afterItem (profiles : ProfileTable) : Item → ProfileTable
  | .error _ => profiles
  | .ok op => profiles.after op

namespace Reader

/-- What comes of the lines that are taken. -/
inductive Outcome where
  | item (item : Item)
  /-- The script says that it ends here. -/
  | quit
  /-- No command is left. -/
  | ended
  /-- The lines end where the arguments of a command should be. -/
  | owing (keyword : Keyword)

namespace Outcome

/-- Nothing stands behind the lines. -/
def isOpen : Outcome → Bool
  | item _ | quit => false
  | ended | owing _ => true

/-- What a reader yields, and the reader behind it, when it has taken the lines up to line `n`. -/
def result (failure : Option String) (n : Nat) (profiles : ProfileTable)
    (rest : List (List UInt8)) : Outcome → Option Item × Reader
  | item i => (some i, ⟨rest, failure, n, profiles.afterItem i, false⟩)
  | quit => (none, ⟨rest, failure, n, profiles, true⟩)
  | ended => atEnd failure n profiles none
  | owing keyword => atEnd failure n profiles (some (.error (.missingArguments n keyword)))

end Outcome

/-- The lines that one item takes when `n` lines have been read, and what comes of them. -/
inductive Takes (profiles : ProfileTable) : Nat → List (List UInt8) → Outcome → Prop
  | ended : Takes profiles n [] .ended
  | passedOver : heading line = .passedOver → Takes profiles (n + 1) used o →
      Takes profiles n (line :: used) o
  | undecodable : heading line = .undecodable →
      Takes profiles n [line] (.item (.error (.invalidEncoding (n + 1))))
  | unknown : heading line = .unknown word →
      Takes profiles n [line] (.item (.error (.unknownCommand (n + 1) word)))
  | quit : heading line = .keyword k → k.command = .quit → Takes profiles n [line] .quit
  | alone : heading line = .keyword k → k.command = .alone op →
      Takes profiles n [line] (.item (.ok op))
  | withArguments {read : ProfileTable → List Char → Except ArgumentFault Operation} :
      heading line = .keyword k → k.command = .withArguments read →
      Takes profiles n [line, args] (.item (argumentItem k read profiles (n + 2) args))
  | owing {read : ProfileTable → List Char → Except ArgumentFault Operation} :
      heading line = .keyword k → k.command = .withArguments read →
      Takes profiles n [line] (.owing k)

variable {failure : Option String} {profiles : ProfileTable} {n : Nat} {line args : List UInt8}
  {lines used rest : List (List UInt8)} {o : Outcome} {k : Keyword} {op : Operation}
  {word : List Char} {read : ProfileTable → List Char → Except ArgumentFault Operation}

/-! ## The reader by what a line is -/

/-- A keyword that stands alone defines no name. -/
theorem after_alone (h : k.command = .alone op) (profiles : ProfileTable) :
    profiles.after op = profiles := by
  cases k <;> cases h <;> rfl

/-- A line between commands, by what it is. -/
theorem nextItem_cons (failure : Option String) (profiles : ProfileTable) (n : Nat)
    (line : List UInt8) (rest : List (List UInt8)) :
    nextItem failure profiles n (line :: rest) =
      match heading line with
      | .passedOver => nextItem failure profiles (n + 1) rest
      | .undecodable =>
        (Outcome.item (.error (.invalidEncoding (n + 1)))).result failure (n + 1) profiles rest
      | .unknown word =>
        (Outcome.item (.error (.unknownCommand (n + 1) word))).result failure (n + 1) profiles rest
      | .keyword k =>
        match k.command with
        | .quit => Outcome.quit.result failure (n + 1) profiles rest
        | .alone op => (Outcome.item (.ok op)).result failure (n + 1) profiles rest
        | .withArguments read => readArguments k read failure (n + 1) profiles rest := by
  rw [nextItem, heading]
  cases Utf8.decode line with
  | error => rfl
  | ok text =>
    dsimp only
    by_cases hp : isPassedOver (Text.trim text) = true
    · rw [if_pos hp, if_pos hp]
    · rw [if_neg hp, if_neg hp]
      cases Keyword.ofText? (String.ofList (Text.trim text)) with
      | none => rfl
      | some k =>
        dsimp only
        cases hk : k.command with
        | quit => rfl
        | alone op =>
          dsimp only [Outcome.result]
          rw [ProfileTable.afterItem, after_alone hk]
        | withArguments read => rfl

/-- An argument line is used up whatever it holds. -/
theorem readArguments_cons (k : Keyword)
    (read : ProfileTable → List Char → Except ArgumentFault Operation) (failure : Option String)
    (n : Nat) (profiles : ProfileTable) (line : List UInt8) (rest : List (List UInt8)) :
    readArguments k read failure n profiles (line :: rest) =
      (Outcome.item (argumentItem k read profiles (n + 1) line)).result failure (n + 1) profiles
        rest := by
  rw [readArguments, argumentItem]
  cases Utf8.decode line with
  | error => rfl
  | ok text =>
    dsimp only
    cases read profiles text <;> rfl

/-! ## Items by the lines they take -/

/-- A reader that has certain lines in front takes them. -/
theorem Takes.nextItem (h : Takes profiles n used o) (failure : Option String)
    (rest : List (List UInt8)) (hr : o.isOpen = true → rest = []) :
    nextItem failure profiles n (used ++ rest) =
      o.result failure (n + used.length) profiles rest := by
  induction h with
  | ended =>
    rw [hr rfl]
    rfl
  | passedOver hl _ ih =>
    rw [List.cons_append, nextItem_cons, hl]
    dsimp only
    rw [ih hr, List.length_cons, Nat.add_right_comm]
    rfl
  | undecodable hl | unknown hl => rw [List.singleton_append, nextItem_cons, hl]; rfl
  | quit hl hk | alone hl hk =>
    rw [List.singleton_append, nextItem_cons, hl]
    dsimp only
    rw [hk]
    rfl
  | withArguments hl hk =>
    rw [List.cons_append, nextItem_cons, hl]
    dsimp only
    rw [hk]
    exact readArguments_cons ..
  | owing hl hk =>
    rw [hr rfl, List.append_nil, nextItem_cons, hl]
    dsimp only
    rw [hk]
    rfl

/-- A reader takes some lines from the front. -/
theorem exists_takes (profiles : ProfileTable) (n : Nat) (lines : List (List UInt8)) :
    ∃ used rest o, lines = used ++ rest ∧ Takes profiles n used o ∧
      (o.isOpen = true → rest = []) := by
  induction lines generalizing n with
  | nil => exact ⟨[], [], _, rfl, .ended, fun _ => rfl⟩
  | cons line lines ih =>
    cases hl : heading line with
    | passedOver =>
      obtain ⟨used, rest, o, rfl, h, hr⟩ := ih (n + 1)
      exact ⟨line :: used, rest, o, rfl, .passedOver hl h, hr⟩
    | undecodable => exact ⟨[line], lines, _, rfl, .undecodable hl, nofun⟩
    | unknown word => exact ⟨[line], lines, _, rfl, .unknown hl, nofun⟩
    | keyword k =>
      cases hk : k.command with
      | quit => exact ⟨[line], lines, _, rfl, .quit hl hk, nofun⟩
      | alone op => exact ⟨[line], lines, _, rfl, .alone hl hk, nofun⟩
      | withArguments read =>
        cases lines with
        | nil => exact ⟨[line], [], _, rfl, .owing hl hk, fun _ => rfl⟩
        | cons args lines => exact ⟨[line, args], lines, _, rfl, .withArguments hl hk, nofun⟩

/-- An item takes a line at least. -/
theorem Takes.length_pos (h : Takes profiles n used o) (ho : o ≠ .ended) : 0 < used.length := by
  cases h with
  | ended => exact absurd rfl ho
  | _ => exact Nat.succ_pos _

/-- Where lines are numbered from shows in errors only. -/
theorem Takes.renumber (h : Takes profiles n used o) (ho : ∀ e, o ≠ .item (.error e)) (m : Nat) :
    Takes profiles m used o := by
  induction h generalizing m with
  | ended => exact .ended
  | passedOver hl _ ih => exact .passedOver hl (ih ho (m + 1))
  | undecodable hl | unknown hl => exact absurd rfl (ho _)
  | quit hl hk => exact .quit hl hk
  | alone hl hk => exact .alone hl hk
  | owing hl hk => exact .owing hl hk
  | @withArguments line k n args read hl hk =>
    have hitem : argumentItem k read profiles (n + 2) args =
        argumentItem k read profiles (m + 2) args := by
      unfold argumentItem at ho ⊢
      cases hd : Utf8.decode args with
      | error =>
        rw [hd] at ho
        exact absurd rfl (ho _)
      | ok text =>
        rw [hd] at ho
        dsimp only at ho ⊢
        cases hr : read profiles text with
        | error fault =>
          rw [hr] at ho
          exact absurd rfl (ho _)
        | ok op => rfl
    rw [hitem]
    exact .withArguments hl hk

/-! ## All items -/

/-- A reader that has not stopped takes the lines of an item. -/
theorem next_takes {r : Reader} (hf : r.finished = false) :
    ∃ used rest o, r.lines = used ++ rest ∧ Takes r.profiles r.lineNumber used o ∧
      (o.isOpen = true → rest = []) ∧
      r.next = o.result r.failure (r.lineNumber + used.length) r.profiles rest := by
  obtain ⟨used, rest, o, hl, ht, hr⟩ := exists_takes r.profiles r.lineNumber r.lines
  refine ⟨used, rest, o, hl, ht, hr, ?_⟩
  rw [next, hf, if_neg Bool.false_ne_true, hl]
  exact ht.nextItem r.failure rest hr

/-- How much there is to read at most. -/
def toRead (r : Reader) : Nat := if r.finished then 0 else r.lines.length + 1

/-- A reader that has stopped reads nothing. -/
theorem next_of_finished {r : Reader} (h : r.finished = true) : r.next = (none, r) := if_pos h

/-- An item at the end of the lines is the failure of the stream, and then the reader has stopped,
or what is yielded there otherwise. -/
theorem toRead_atEnd {r' : Reader} {item : Item} {otherwise : Option Item}
    (h : atEnd failure n profiles otherwise = (some item, r')) :
    r'.toRead = 0 ∨ otherwise = some item ∧ r'.toRead = 1 := by
  cases failure with
  | none =>
    obtain ⟨rfl, rfl⟩ := Prod.mk.inj h
    exact .inr ⟨rfl, rfl⟩
  | some reason =>
    obtain ⟨-, rfl⟩ := Prod.mk.inj h
    exact .inl rfl

/-- Reading an item leaves less to read. -/
theorem toRead_next {r r' : Reader} {item : Item} (h : r.next = (some item, r')) :
    r'.toRead < r.toRead := by
  cases hf : r.finished with
  | true =>
    rw [next_of_finished hf] at h
    cases h
  | false =>
    obtain ⟨used, rest, o, hl, ht, -, hn⟩ := next_takes hf
    rw [h] at hn
    have hr : r.toRead = used.length + rest.length + 1 := by
      rw [toRead, hf, hl, List.length_append]
      rfl
    rw [hr]
    cases o with
    | item i =>
      have hu := ht.length_pos nofun
      obtain ⟨-, rfl⟩ := Prod.mk.inj hn
      change rest.length + 1 < _
      omega
    | quit => cases hn
    | ended =>
      rcases toRead_atEnd hn.symm with h0 | ⟨hi, -⟩
      · omega
      · cases hi
    | owing k =>
      have hu := ht.length_pos nofun
      rcases toRead_atEnd hn.symm with h0 | ⟨-, h1⟩ <;> omega

/-- What holds of readers that yield nothing, and of a reader if it holds of the one behind its
next item, holds of every reader. -/
theorem induction_next {motive : Reader → Prop}
    (stop : ∀ r last, r.next = (none, last) → motive r)
    (step : ∀ r item r', r.next = (some item, r') → motive r' → motive r) (r : Reader) :
    motive r := by
  cases h : r.next with
  | mk item? r' =>
    cases item? with
    | none => exact stop r r' h
    | some item =>
      have hlt := toRead_next h
      exact step r item r' h (induction_next stop step r')
termination_by r.toRead

/-- A reader with nothing left to read has stopped. -/
theorem finished_of_toRead {r : Reader} (h : r.toRead ≤ 0) : r.finished = true := by
  cases hf : r.finished with
  | true => rfl
  | false =>
    rw [toRead, hf, if_neg Bool.false_ne_true] at h
    omega

/-- A reader that yields nothing is left where it stops. -/
theorem stepsWithin_of_none {r last : Reader} {fuel : Nat} (hn : r.next = (none, last))
    (h : r.toRead ≤ fuel) : r.stepsWithin fuel = ([], last) := by
  cases fuel with
  | zero =>
    rw [next_of_finished (finished_of_toRead h)] at hn
    rw [stepsWithin, (Prod.mk.inj hn).2]
  | succ fuel => rw [stepsWithin, hn]

/-- Fuel that is enough for what there is to read is as good as any other. -/
theorem stepsWithin_congr {r : Reader} {fuel fuel' : Nat} (h : r.toRead ≤ fuel)
    (h' : r.toRead ≤ fuel') : r.stepsWithin fuel = r.stepsWithin fuel' := by
  induction r using induction_next generalizing fuel fuel' with
  | stop r last hn => rw [stepsWithin_of_none hn h, stepsWithin_of_none hn h']
  | step r item r' hn ih =>
    have hlt := toRead_next hn
    cases fuel with
    | zero => omega
    | succ fuel =>
      cases fuel' with
      | zero => omega
      | succ fuel' =>
        have hrest : r'.stepsWithin fuel = r'.stepsWithin fuel' := ih (by omega) (by omega)
        rw [stepsWithin, stepsWithin, hn]
        dsimp only
        rw [hrest]

theorem toRead_le (r : Reader) : r.toRead ≤ r.lines.length + 1 := by
  unfold toRead
  split <;> omega

/-- Reading a script to its end starts with its next item: there is none. -/
theorem steps_of_none {r last : Reader} (h : r.next = (none, last)) : r.steps = ([], last) :=
  stepsWithin_of_none h (toRead_le r)

/-- Reading a script to its end starts with its next item, and goes on behind it. -/
theorem steps_of_some {r r' : Reader} {item : Item} (h : r.next = (some item, r')) :
    r.steps = ((item, r') :: r'.steps.1, r'.steps.2) := by
  have hlt := toRead_next h
  have hle := toRead_le r
  have hrest : r'.stepsWithin r.lines.length = r'.steps :=
    stepsWithin_congr (by omega) (toRead_le r')
  rw [steps, stepsWithin, h]
  dsimp only
  rw [hrest]

/-! ## Streams that do not break -/

/-- From one reader to the next an item takes lines off the front and defines its name, and
nothing else changes. -/
structure Uses (r : Reader) (item : Item) (r' : Reader) (used : List (List UInt8)) : Prop where
  lines : r.lines = used ++ r'.lines
  failure : r'.failure = r.failure
  lineNumber : r'.lineNumber = r.lineNumber + used.length
  profiles : r'.profiles = r.profiles.afterItem item
  finished : r'.finished = r.finished

/-- Every item takes the lines it is read from. An operation is read from the same lines again
wherever they are numbered from and whatever is behind them. -/
theorem next_uses {r r' : Reader} {item : Item} (hs : r.failure = none)
    (h : r.next = (some item, r')) :
    ∃ used, Uses r item r' used ∧ ∀ op, item = .ok op → ∀ rest n,
      ({ r with lines := used ++ rest, lineNumber := n } : Reader).next =
        (some (.ok op), { r' with lines := rest, lineNumber := n + used.length }) := by
  cases hf : r.finished with
  | true =>
    rw [next_of_finished hf] at h
    cases h
  | false =>
    obtain ⟨used, rest, o, hl, ht, hr, hn⟩ := next_takes hf
    rw [h, hs] at hn
    refine ⟨used, ?_⟩
    cases o with
    | item i =>
      obtain ⟨hi, rfl⟩ := Prod.mk.inj hn
      obtain rfl := Option.some.inj hi
      refine ⟨⟨hl, hs.symm, rfl, rfl, hf.symm⟩, ?_⟩
      rintro op rfl rest' n
      change nextItem r.failure r.profiles n (used ++ rest') = _
      rw [hs]
      exact (ht.renumber nofun n).nextItem none rest' nofun
    | quit | ended => cases hn
    | owing k =>
      obtain ⟨hi, rfl⟩ := Prod.mk.inj hn
      obtain rfl := Option.some.inj hi
      obtain rfl := hr rfl
      exact ⟨⟨hl, hs.symm, rfl, rfl, hf.symm⟩, nofun⟩

/-- A reader that yields nothing yields nothing with other line numbers, and has the same names. -/
theorem next_of_none {r last : Reader} (hs : r.failure = none) (h : r.next = (none, last))
    (n : Nat) :
    ∃ last', ({ r with lineNumber := n } : Reader).next = (none, last') ∧
      last'.profiles = last.profiles := by
  obtain ⟨lines, failure, m, profiles, finished⟩ := r
  obtain rfl : failure = none := hs
  cases finished with
  | true =>
    obtain ⟨-, rfl⟩ := Prod.mk.inj h
    exact ⟨_, rfl, rfl⟩
  | false =>
    obtain ⟨used, rest, o, rfl, ht, hr, hn⟩ :=
      next_takes (r := ⟨lines, none, m, profiles, false⟩) rfl
    rw [h] at hn
    cases o with
    | item i | owing k => cases hn
    | quit | ended =>
      obtain ⟨-, rfl⟩ := Prod.mk.inj hn
      exact ⟨_, (ht.renumber nofun n).nextItem none rest hr, rfl⟩

end Reader

end SceneScript
