import SceneScript.Proofs.Script.Items
import SceneScript.Proofs.Text.Encoding
import SceneScript.Proofs.Text.Words

/-!
# Lines between commands and argument lines

What a line between commands can be is told without the reader: it is idle, a keyword, another text
or no text (`heading_cases`), and a reader takes it for what it is.

A reader asks for arguments when its next command has an argument line (`Asks`). Then its next item
is what the command makes of that line (`Asks.next`), and an item that comes of an argument line
comes of the one that is asked for (`exists_asks`).
-/

namespace SceneScript

namespace Reader

/-! ## Lines between commands -/

/-- A trimmed line that means nothing between commands: blank, or a comment. -/
def Idle (word : List Char) : Prop := word = [] ∨ ['#'] <+: word ∨ ['/', '/'] <+: word

variable {line args : List UInt8} {text word : List Char} {k : Keyword} {n m : Nat}

/-- Idle lines are passed over. -/
theorem isPassedOver_iff : isPassedOver word = true ↔ Idle word := by
  unfold isPassedOver
  split
  · simp [Idle]
  · simp [Idle]
  · simp [Idle]
  · next hnil hhash hslash =>
    refine iff_of_false Bool.false_ne_true ?_
    rintro (rfl | ⟨rest, rfl⟩ | ⟨rest, rfl⟩)
    · exact hnil rfl
    · exact hhash rest rfl
    · exact hslash rest rfl

/-- A keyword is not idle. -/
theorem not_idle_keyword (k : Keyword) : ¬ Idle k.text.toList := by
  rw [← isPassedOver_iff]
  cases k <;> decide

/-- A text is a keyword when it spells it. -/
theorem ofText?_eq_some_iff {s : String} : Keyword.ofText? s = some k ↔ s = k.text := by
  constructor
  · intro h
    have hb := List.find?_some (p := fun k : Keyword => k.text == s) h
    exact (beq_iff_eq.1 hb).symm
  · rintro rfl
    exact Keyword.ofText?_text k

/-- What a line of text between commands is. -/
theorem heading_encode (h : Text.Trims text word) :
    heading (Utf8.encode text) =
      if isPassedOver word then .passedOver
      else match Keyword.ofText? (String.ofList word) with
        | none => .unknown word
        | some k => .keyword k := by
  have hd : Utf8.decode (Utf8.encode text) = .ok text := Utf8.decode_eq_ok_iff.2 rfl
  obtain rfl := h.trim_eq
  unfold heading
  split
  · next he => exact nomatch he.symm.trans hd
  · next text' ht =>
    obtain rfl := Except.ok.inj (ht.symm.trans hd)
    rfl

theorem heading_idle (h : Text.Trims text word) (hi : Idle word) :
    heading (Utf8.encode text) = .passedOver := by
  rw [heading_encode h, if_pos (isPassedOver_iff.2 hi)]

theorem heading_keyword (h : Text.Trims text k.text.toList) :
    heading (Utf8.encode text) = .keyword k := by
  rw [heading_encode h, if_neg (mt isPassedOver_iff.1 (not_idle_keyword k)), String.ofList_toList,
    Keyword.ofText?_text]

theorem heading_unknown (h : Text.Trims text word) (hi : ¬ Idle word)
    (hk : ∀ k : Keyword, word ≠ k.text.toList) :
    heading (Utf8.encode text) = .unknown word := by
  rw [heading_encode h, if_neg (mt isPassedOver_iff.1 hi)]
  cases hw : Keyword.ofText? (String.ofList word) with
  | none => rfl
  | some k =>
    have hword : word = k.text.toList := by
      rw [← ofText?_eq_some_iff.1 hw, String.toList_ofList]
    exact absurd hword (hk k)

theorem heading_undecodable (h : ∀ text, line ≠ Utf8.encode text) :
    heading line = .undecodable := by
  obtain ⟨fault, hf⟩ := Utf8.exists_decode_eq_error_iff.2 h
  rw [heading, hf]

/-- What a line between commands can be. -/
theorem heading_cases (line : List UInt8) :
    (∃ text word, line = Utf8.encode text ∧ Text.Trims text word ∧ Idle word) ∨
    (∃ text, ∃ k : Keyword, line = Utf8.encode text ∧ Text.Trims text k.text.toList) ∨
    (∃ text word, line = Utf8.encode text ∧ Text.Trims text word ∧ ¬ Idle word ∧
      ∀ k : Keyword, word ≠ k.text.toList) ∨
    ∀ text, line ≠ Utf8.encode text := by
  by_cases ht : ∃ text, line = Utf8.encode text
  · obtain ⟨text, rfl⟩ := ht
    have h := Text.trims_trim text
    by_cases hi : Idle (Text.trim text)
    · exact .inl ⟨text, _, rfl, h, hi⟩
    · by_cases hk : ∃ k : Keyword, Text.trim text = k.text.toList
      · obtain ⟨k, hk⟩ := hk
        exact .inr (.inl ⟨text, k, rfl, hk ▸ h⟩)
      · exact .inr (.inr (.inl ⟨text, _, rfl, h, hi, not_exists.1 hk⟩))
  · exact .inr (.inr (.inr (not_exists.1 ht)))

/-- A line is passed over when it is idle. -/
theorem heading_eq_passedOver_iff :
    heading line = .passedOver ↔
      ∃ text word, line = Utf8.encode text ∧ Text.Trims text word ∧ Idle word := by
  refine ⟨fun h => ?_, fun ⟨text, word, hl, ht, hi⟩ => hl ▸ heading_idle ht hi⟩
  rcases heading_cases line with hc | ⟨text, k, rfl, ht⟩ | ⟨text, word, rfl, ht, hi, hk⟩ | hc
  · exact hc
  · exact nomatch (heading_keyword ht).symm.trans h
  · exact nomatch (heading_unknown ht hi hk).symm.trans h
  · exact nomatch (heading_undecodable hc).symm.trans h

/-- A line is a keyword when it spells it, but for blanks at the ends. -/
theorem heading_eq_keyword_iff :
    heading line = .keyword k ↔
      ∃ text, line = Utf8.encode text ∧ Text.Trims text k.text.toList := by
  refine ⟨fun h => ?_, fun ⟨text, hl, ht⟩ => hl ▸ heading_keyword ht⟩
  rcases heading_cases line with ⟨text, word, rfl, ht, hi⟩ | ⟨text, k', rfl, ht⟩ |
    ⟨text, word, rfl, ht, hi, hk⟩ | hc
  · exact nomatch (heading_idle ht hi).symm.trans h
  · obtain rfl := Heading.keyword.inj ((heading_keyword ht).symm.trans h)
    exact ⟨text, rfl, ht⟩
  · exact nomatch (heading_unknown ht hi hk).symm.trans h
  · exact nomatch (heading_undecodable hc).symm.trans h

/-! ## Argument lines -/

/-- The next command of the reader is this keyword, and the line behind it is line `m` and holds
this text. -/
def Asks (r : Reader) (k : Keyword) (m : Nat) (text : List Char) : Prop :=
  r.finished = false ∧ ∃ idle command rest,
    r.lines = idle ++ Utf8.encode command :: Utf8.encode text :: rest ∧
    (∀ line ∈ idle, ∃ t word, line = Utf8.encode t ∧ Text.Trims t word ∧ Idle word) ∧
    Text.Trims command k.text.toList ∧ m = r.lineNumber + idle.length + 2

/-- The item comes of an argument line: it is the operation of a command that has one, or tells what
is wrong with one. -/
def OfArguments : Item → Prop
  | .ok op => ∃ read, op.keyword.command = .withArguments read
  | .error (.invalidArguments ..) | .error (.unknownConstants ..) => True
  | .error _ => False

variable {r : Reader} {item : Item} {profiles : ProfileTable} {used idle : List (List UInt8)}
  {o : Outcome} {read : ProfileTable → List Char → Except ArgumentFault Operation}

/-- Idle lines come before those that an item takes. -/
theorem Takes.append_idle (h : Takes profiles (n + idle.length) used o)
    (hi : ∀ line ∈ idle, heading line = .passedOver) : Takes profiles n (idle ++ used) o := by
  induction idle generalizing n with
  | nil => exact h
  | cons line idle ih =>
    obtain ⟨hl, hidle⟩ := List.forall_mem_cons.1 hi
    refine .passedOver hl (ih ?_ hidle)
    rw [Nat.add_right_comm]
    exact h

/-- An argument line that is text is what its command makes of it. -/
theorem argumentItem_encode (k : Keyword)
    (read : ProfileTable → List Char → Except ArgumentFault Operation) (profiles : ProfileTable)
    (n : Nat) (text : List Char) :
    argumentItem k read profiles n (Utf8.encode text) =
      (read profiles text).mapError (argumentError k n) := by
  rw [argumentItem, Utf8.decode_eq_ok_iff.2 rfl]

/-- The next item is what the command makes of the argument line that is asked for. -/
theorem Asks.next (h : Asks r k m text) (hk : k.command = .withArguments read) :
    r.next.1 = some ((read r.profiles text).mapError (argumentError k m)) := by
  obtain ⟨hf, idle, command, rest, hl, hidle, hcommand, rfl⟩ := h
  have ht : Takes r.profiles (r.lineNumber + idle.length) [Utf8.encode command, Utf8.encode text]
      (.item (argumentItem k read r.profiles (r.lineNumber + idle.length + 2)
        (Utf8.encode text))) :=
    .withArguments (heading_keyword hcommand) hk
  have hn := (ht.append_idle fun line hline =>
    heading_eq_passedOver_iff.2 (hidle line hline)).nextItem r.failure rest nofun
  rw [List.append_assoc] at hn
  rw [Reader.next, hf, if_neg Bool.false_ne_true, hl, ← argumentItem_encode]
  exact congrArg Prod.fst hn

/-- A keyword that stands alone is that of its operation. -/
theorem keyword_of_alone {op : Operation} (h : k.command = .alone op) : op.keyword = k := by
  cases k <;> cases h <;> rfl

/-- The lines of an item that comes of an argument line. -/
theorem Takes.exists_arguments (h : Takes profiles n used o) (ho : o = .item item)
    (hi : OfArguments item) :
    ∃ idle line, ∃ k : Keyword, ∃ read text, used = idle ++ [line, Utf8.encode text] ∧
      (∀ line ∈ idle, heading line = .passedOver) ∧ heading line = .keyword k ∧
      k.command = .withArguments read ∧
      item = (read profiles text).mapError (argumentError k (n + idle.length + 2)) := by
  induction h with
  | ended | quit | owing => cases ho
  | @passedOver line n used o hl _ ih =>
    obtain ⟨idle, command, k, read, text, rfl, hidle, hcommand, hk, hitem⟩ := ih ho
    refine ⟨line :: idle, command, k, read, text, rfl, List.forall_mem_cons.2 ⟨hl, hidle⟩, hcommand,
      hk, ?_⟩
    rw [hitem, List.length_cons, Nat.add_right_comm n 1]
    rfl
  | undecodable | unknown =>
    cases ho
    exact hi.elim
  | alone hl hk =>
    -- an operation that stands alone has a keyword that does
    cases ho
    obtain ⟨read, hread⟩ := hi
    rw [keyword_of_alone hk, hk] at hread
    cases hread
  | @withArguments line k n args read hl hk =>
    obtain rfl := Outcome.item.inj ho
    by_cases ht : ∃ text, args = Utf8.encode text
    · obtain ⟨text, rfl⟩ := ht
      exact ⟨[], line, k, read, text, rfl, nofun, hl, hk, argumentItem_encode ..⟩
    · obtain ⟨fault, hf⟩ := Utf8.exists_decode_eq_error_iff.2 (not_exists.1 ht)
      rw [argumentItem, hf] at hi
      exact hi.elim

/-- An item that comes of an argument line comes of the one that is asked for. -/
theorem exists_asks (h : r.next.1 = some item) (hi : OfArguments item) :
    ∃ k : Keyword, ∃ m text read, Asks r k m text ∧ k.command = .withArguments read ∧
      item = (read r.profiles text).mapError (argumentError k m) := by
  cases hf : r.finished with
  | true =>
    rw [next_of_finished hf] at h
    cases h
  | false =>
    obtain ⟨used, rest, o, hl, ht, -, hn⟩ := next_takes hf
    rw [hn] at h
    cases o with
    | item i =>
      obtain rfl := Option.some.inj h
      obtain ⟨idle, line, k, read, text, rfl, hidle, hline, hk, hitem⟩ :=
        ht.exists_arguments rfl hi
      obtain ⟨command, rfl, hcommand⟩ := heading_eq_keyword_iff.1 hline
      refine ⟨k, _, text, read,
        ⟨hf, idle, command, rest, ?_, fun line hmem => ?_, hcommand, rfl⟩, hk, hitem⟩
      · rw [hl, List.append_assoc]
        rfl
      · exact heading_eq_passedOver_iff.1 (hidle line hmem)
    | quit => cases h
    | ended | owing => cases hs : r.failure <;> rw [hs] at h <;> cases h <;> exact hi.elim

end Reader

end SceneScript
