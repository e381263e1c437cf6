import SceneScript.Proofs.Script.Acceptance
import SceneScript.Proofs.Script.Course

/-!
# Scripts one behind the other

All that a reader carries from line to line is a line number and the names defined so far. The line
number shows in errors only (`Course.raise`), so where the lines of one script are used up the next
script goes on as if it were read from there (`Course.append`): reading two scripts in a row is
reading the first and then the second, with the names of the first and with the line numbers raised
by its lines (`ReadsInTurn`).

So no line is skipped and none is read twice (`AccountsForLines`): what a reader has before it is
what is left of the lines at its line number.
-/

namespace SceneScript

namespace Stream

variable {a b bytes line : List UInt8}

/-- The last line of the bytes has its newline, or there is no line. -/
def EndsInLine (bytes : List UInt8) : Prop := ∀ b ∈ bytes.getLast?, b = newline

instance (bytes : List UInt8) : Decidable (EndsInLine bytes) :=
  inferInstanceAs (Decidable (∀ b ∈ bytes.getLast?, b = newline))

/-- How many lines the bytes have: one for each newline, and one that has none. -/
def lineCount (bytes : List UInt8) : Nat :=
  bytes.count newline + if EndsInLine bytes then 0 else 1

/-- Whether the last line has its newline does not depend on the lines before. -/
theorem endsInLine_line (line bytes : List UInt8) :
    EndsInLine (line ++ newline :: bytes) ↔ EndsInLine bytes := by
  cases bytes with
  | nil => simp [EndsInLine]
  | cons b bytes => simp [EndsInLine, List.getLast?_append]

/-- Bytes without a newline end in a line when they are none. -/
theorem eq_nil_of_endsInLine (h : newline ∉ bytes) (he : EndsInLine bytes) : bytes = [] := by
  by_contra hne
  exact h (he _ (List.getLast?_eq_some_getLast hne) ▸ List.getLast_mem hne)

/-- The lines of two streams in a row, the first of which ends in a line. -/
theorem lines_append (ha : EndsInLine a) (b : List UInt8) :
    lines ⟨a ++ b, none⟩ = lines ⟨a, none⟩ ++ lines ⟨b, none⟩ := by
  induction a using induction_lines with
  | rest rest h =>
    rw [eq_nil_of_endsInLine h ha]
    rfl
  | line line bytes h ih =>
    rw [List.append_assoc, List.cons_append, lines_line h, lines_line h,
      ih ((endsInLine_line line bytes).1 ha), List.cons_append]

/-- There are as many lines as are counted. -/
theorem length_lines (bytes : List UInt8) : (lines ⟨bytes, none⟩).length = lineCount bytes := by
  induction bytes using induction_lines with
  | rest rest h =>
    rw [lines_of_not_mem h, lineCount, List.count_eq_zero_of_not_mem h]
    by_cases he : EndsInLine rest
    · rw [if_pos he, eq_nil_of_endsInLine h he]
      rfl
    · have hne : ¬ rest.isEmpty = true := by
        rintro hnil
        rw [List.isEmpty_iff.1 hnil] at he
        exact he nofun
      rw [if_neg he, if_neg hne]
      rfl
  | line line bytes h ih =>
    rw [lines_line h, List.length_cons, ih, lineCount, lineCount, List.count_append,
      List.count_eq_zero_of_not_mem h, List.count_cons_self]
    simp only [endsInLine_line]
    omega

end Stream

/-- The error when `m` more lines come before the script. -/
def ScriptError.raise (m : Nat) : ScriptError → ScriptError
  | io reason => .io reason
  | unknownCommand n text => .unknownCommand (m + n) text
  | missingArguments n keyword => .missingArguments (m + n) keyword
  | invalidArguments n keyword problem => .invalidArguments (m + n) keyword problem
  | unknownConstants n name => .unknownConstants (m + n) name
  | invalidEncoding n => .invalidEncoding (m + n)

/-- The item when `m` more lines come before the script. -/
def Item.raise (m : Nat) (item : Item) : Item := item.mapError (.raise m)

namespace Reader

variable {t : ProfileTable} {n : Nat} {a b used idle : List (List UInt8)}
  {items others : List Item} {o p : Outcome} {r r' : Reader} {item : Item} {e : ScriptError}

/-! ## Line numbers -/

/-- Where lines are numbered from shows in the errors of an argument line. -/
theorem argumentItem_raise (k : Keyword)
    (read : ProfileTable → List Char → Except ArgumentFault Operation) (t : ProfileTable)
    (m n : Nat) (line : List UInt8) :
    argumentItem k read t (m + n) line = (argumentItem k read t n line).raise m := by
  unfold argumentItem
  cases Utf8.decode line with
  | error => rfl
  | ok text =>
    dsimp only
    cases read t text with
    | ok op => rfl
    | error fault => cases fault <;> rfl

/-- What comes of the lines when `m` more lines come before them. -/
def Outcome.raise (m : Nat) : Outcome → Outcome
  | .item i => .item (i.raise m)
  | .quit => .quit
  | .ended => .ended
  | .owing keyword => .owing keyword

/-- Lines that are numbered from elsewhere are taken as they were. -/
theorem Takes.raise (h : Takes t n used o) (m : Nat) : Takes t (m + n) used (o.raise m) := by
  induction h with
  | ended => exact .ended
  | passedOver hl _ ih => exact .passedOver hl ih
  | undecodable hl => exact .undecodable hl
  | unknown hl => exact .unknown hl
  | quit hl hk => exact .quit hl hk
  | alone hl hk => exact .alone hl hk
  | owing hl hk => exact .owing hl hk
  | withArguments hl hk =>
    rw [Outcome.raise, ← argumentItem_raise]
    exact .withArguments hl hk

/-- An error defines no name, whatever its line. -/
theorem afterItem_raise (t : ProfileTable) (item : Item) (m : Nat) :
    t.afterItem (item.raise m) = t.afterItem item := by
  cases item <;> rfl

/-- A course that is numbered from elsewhere is what it was, but for the lines of its errors. -/
theorem Course.raise (h : Course t n used items o) (m : Nat) :
    Course t (m + n) used (items.map (Item.raise m)) o := by
  induction h with
  | @stop t n used o ht ho =>
    have hraise : o.raise m = o := by
      cases o with
      | item item => exact absurd rfl (ho item)
      | _ => rfl
    exact .stop (hraise ▸ ht.raise m) ho
  | @item t n used item later others o ht _ ih =>
    refine .item (ht.raise m) ?_
    rw [afterItem_raise, Nat.add_assoc]
    exact ih

/-- The line of an error is the last one taken for it. -/
theorem Takes.line?_eq (h : Takes t n used o) (ho : o = .item (.error e)) :
    e.line? = some (n + used.length) := by
  induction h with
  | ended | quit | alone | owing => cases ho
  | passedOver _ _ ih =>
    rw [ih ho, List.length_cons, Nat.add_right_comm]
    rfl
  | undecodable | unknown =>
    cases ho
    rfl
  | @withArguments line k n args read =>
    rcases error_of_argumentItem (Outcome.item.inj ho) with rfl | ⟨fault, rfl⟩
    · rfl
    · cases fault <;> rfl

/-! ## One script behind the other -/

/-- Lines that lead to nothing come before those of an item. -/
theorem Takes.append (h : Takes t n idle p) (hp : p = .ended)
    (h' : Takes t (n + idle.length) used o) : Takes t n (idle ++ used) o := by
  induction h with
  | ended => exact h'
  | passedOver hl _ ih =>
    refine .passedOver hl (ih hp ?_)
    rw [Nat.add_right_comm]
    exact h'
  | _ => cases hp

/-- Behind a course that comes to the end of its lines another one goes on. -/
theorem Course.append (h : Course t n a items p) (hp : p = .ended)
    (h' : Course (t.afterItems items) (n + a.length) b others o) :
    Course t n (a ++ b) (items ++ others) o := by
  induction h with
  | stop ht _ =>
    -- the lines behind the last item are idle: the next item takes them along
    cases h' with
    | stop ht' ho => exact .stop (ht.append hp ht') ho
    | item ht' hc =>
      rw [← List.append_assoc]
      refine .item (ht.append hp ht') ?_
      rw [List.length_append, ← Nat.add_assoc]
      exact hc
  | item ht _ ih =>
    rw [List.append_assoc]
    refine .item ht (ih hp ?_)
    rw [Nat.add_assoc, ← List.length_append]
    exact h'

/-- What there is at a stop, wherever the lines are numbered from. -/
theorem result_raise (ho : ∀ item, o ≠ .item item) (m n : Nat) (t : ProfileTable)
    (rest : List (List UInt8)) :
    (o.result none (m + n) t rest).1.toList =
        (o.result none n t rest).1.toList.map (Item.raise m) ∧
      (o.result none (m + n) t rest).2 =
        { (o.result none n t rest).2 with
          lineNumber := m + (o.result none n t rest).2.lineNumber } := by
  cases o with
  | item item => exact absurd rfl (ho item)
  | _ => exact ⟨rfl, rfl⟩

/-- Errors define no names, whatever their lines. -/
theorem afterItems_raise (t : ProfileTable) (items : List Item) (m : Nat) :
    t.afterItems (items.map (Item.raise m)) = t.afterItems items := by
  rw [ProfileTable.afterItems, List.foldl_map]
  simp only [afterItem_raise]
  rfl

theorem afterItems_append (t : ProfileTable) (items others : List Item) :
    t.afterItems (items ++ others) = (t.afterItems items).afterItems others :=
  List.foldl_append

/-- Lines behind a course that comes to its end are read with the names defined in it, and with
the line numbers raised by its lines. -/
theorem Course.reading_append (h : Course t 0 a items .ended) (lines : List (List UInt8)) :
    (reading t 0 (a ++ lines)).items =
        items ++ (reading (t.afterItems items) 0 lines).items.map (Item.raise a.length) ∧
      (reading t 0 (a ++ lines)).steps.2 =
        { (reading (t.afterItems items) 0 lines).steps.2 with
          lineNumber := a.length + (reading (t.afterItems items) 0 lines).steps.2.lineNumber } := by
  obtain ⟨used, rest, others, o, rfl, hc, hr⟩ := exists_course (t.afterItems items) 0 lines
  have hraised : Course (t.afterItems items) (0 + a.length) used
      (others.map (Item.raise a.length)) o := by
    rw [Nat.add_comm]
    exact hc.raise a.length
  have hall := h.append rfl hraised
  have hstop := result_raise hc.ne_item a.length used.length
    ((t.afterItems items).afterItems others) rest
  unfold reading
  rw [← List.append_assoc, hall.items_eq none rest hr, hall.steps_snd none rest hr,
    hc.items_eq none rest hr, hc.steps_snd none rest hr, List.length_append, afterItems_append,
    afterItems_raise, Nat.zero_add, Nat.zero_add, hstop.1, hstop.2, List.map_append,
    List.append_assoc]
  exact ⟨rfl, rfl⟩

/-! ## Every line is read once -/

/-- The reader behind the next item has what is left of the lines. -/
theorem next_lines (hs : r.failure = none) :
    ∃ used, r.lines = used ++ r.next.2.lines ∧
      r.next.2.lineNumber = r.lineNumber + used.length ∧ r.next.2.failure = none := by
  cases hf : r.finished with
  | true =>
    rw [next_of_finished hf]
    exact ⟨[], rfl, rfl, hs⟩
  | false =>
    obtain ⟨used, rest, o, hl, ht, hr, hn⟩ := next_takes hf
    rw [hn, hs]
    cases o with
    | item | quit => exact ⟨used, hl, rfl, rfl⟩
    | ended | owing =>
      obtain rfl := hr rfl
      exact ⟨used, hl, rfl, rfl⟩

/-- However often a reader is asked, it has before it what is left of the lines. -/
theorem lines_ask (lines : List (List UInt8)) (n : Nat) :
    ((reading t 0 lines).ask n).2.lines =
        lines.drop ((reading t 0 lines).ask n).2.lineNumber ∧
      ((reading t 0 lines).ask n).2.failure = none := by
  induction n with
  | zero => exact ⟨rfl, rfl⟩
  | succ n ih =>
    obtain ⟨hl, hs⟩ := ih
    obtain ⟨used, hused, hn, hs'⟩ := next_lines hs
    refine ⟨?_, hs'⟩
    rw [ask, hn, ← List.drop_drop, ← hl, hused, List.drop_left]

/-- An item takes the reader further, and an error is reported where the reader is then. -/
theorem lineNumber_next (hs : r.failure = none) (h : r.next = (some item, r')) :
    r.lineNumber < r'.lineNumber ∧ ∀ e, item = .error e → e.line? = some r'.lineNumber := by
  cases hf : r.finished with
  | true =>
    rw [next_of_finished hf] at h
    cases h
  | false =>
    obtain ⟨used, rest, o, hl, ht, hr, hn⟩ := next_takes hf
    rw [h, hs] at hn
    cases o with
    | item i =>
      have hu := ht.length_pos nofun
      obtain ⟨hi, rfl⟩ := Prod.mk.inj hn
      obtain rfl := Option.some.inj hi
      exact ⟨Nat.lt_add_of_pos_right hu, fun e he => ht.line?_eq (congrArg Outcome.item he)⟩
    | quit | ended => cases hn
    | owing k =>
      have hu := ht.length_pos nofun
      obtain ⟨hi, rfl⟩ := Prod.mk.inj hn
      obtain rfl := Option.some.inj hi
      refine ⟨Nat.lt_add_of_pos_right hu, ?_⟩
      rintro e ⟨⟩
      rfl

/-- Line numbers increase from item to item. -/
theorem isChain_lineNumber (r : Reader) (hs : r.failure = none) :
    List.IsChain (· < ·) (r.lineNumber :: r.steps.1.map (·.2.lineNumber)) := by
  induction r using induction_next with
  | stop r last hn =>
    rw [steps_of_none hn]
    exact .singleton _
  | step r item r' hn ih =>
    rw [steps_of_some hn]
    exact .cons_cons (lineNumber_next hs hn).1 (ih (failure_next hn ▸ hs))

/-- What reading bytes and then others comes to. -/
structure ReadsInTurn (a b : List UInt8) : Prop where
  /-- Where the first script neither says that it ends nor lacks an argument line, its items come
  first, and then those of the second, read with the names defined so far and numbered from the
  lines read so far. -/
  goesOn : ¬ MeetsQuit (ofStream ⟨a, none⟩) →
    (∀ n k, (ofStream ⟨a, none⟩).items.getLast? ≠ some (.error (.missingArguments n k))) →
    let second := { ofStream ⟨b, none⟩ with profiles := (ofStream ⟨a, none⟩).steps.2.profiles }
    (ofStream ⟨a ++ b, none⟩).items =
        (ofStream ⟨a, none⟩).items ++ second.items.map (Item.raise (Stream.lineCount a)) ∧
      (ofStream ⟨a ++ b, none⟩).steps.2 =
        { second.steps.2 with lineNumber := Stream.lineCount a + second.steps.2.lineNumber }
  /-- Where the first script says that it ends, nothing of the second is read. -/
  stops : MeetsQuit (ofStream ⟨a, none⟩) →
    (ofStream ⟨a ++ b, none⟩).items = (ofStream ⟨a, none⟩).items

/-- Every line of a script is read once. -/
structure AccountsForLines (bytes : List UInt8) : Prop where
  /-- The line number increases with each item. -/
  increases : List.IsChain (· < ·) (0 :: (ofStream ⟨bytes, none⟩).steps.1.map (·.2.lineNumber))
  /-- An error carries the line number reached. -/
  reported : ∀ e r, (.error e, r) ∈ (ofStream ⟨bytes, none⟩).steps.1 →
    e.line? = some r.lineNumber
  /-- What is still to be read are the lines behind the line number. -/
  unread : ∀ n, ((ofStream ⟨bytes, none⟩).ask n).2.lines =
    (Stream.lines ⟨bytes, none⟩).drop ((ofStream ⟨bytes, none⟩).ask n).2.lineNumber
  /-- A script that does not say where it ends is read to its last line. -/
  all : ¬ MeetsQuit (ofStream ⟨bytes, none⟩) →
    (ofStream ⟨bytes, none⟩).steps.2.lineNumber = Stream.lineCount bytes

/-- Scripts in a row are read one after the other. -/
theorem readsInTurn (a b : List UInt8) (ha : Stream.EndsInLine a) : ReadsInTurn a b := by
  obtain ⟨used, rest, items, o, hl, hc, hr⟩ := exists_course .empty 0 (Stream.lines ⟨a, none⟩)
  have hfirst : ofStream ⟨a, none⟩ = ⟨used ++ rest, none, 0, .empty, false⟩ := by
    rw [ofStream, hl]
  have hboth : ofStream ⟨a ++ b, none⟩ =
      reading .empty 0 (used ++ (rest ++ Stream.lines ⟨b, none⟩)) := by
    rw [ofStream, Stream.lines_append ha, hl, List.append_assoc]
    rfl
  have hquit := hc.meetsQuit_iff none rest hr
  have hitems := hc.items_eq none rest hr
  rw [← hfirst] at hquit hitems
  constructor
  · intro hnot hlast second
    -- of the stops only the end of the lines is left
    cases o with
    | item item => exact absurd rfl (hc.ne_item item)
    | quit => exact absurd rfl (mt hquit.2 hnot)
    | owing k =>
      refine absurd ?_ (hlast (0 + used.length) k)
      rw [hitems]
      exact List.getLast?_concat
    | ended =>
      obtain rfl := hr rfl
      have hcount : Stream.lineCount a = used.length := by
        rw [← Stream.length_lines, hl, List.append_nil]
      have hsecond : second = reading (ProfileTable.empty.afterItems items) 0
          (Stream.lines ⟨b, none⟩) := by
        change Reader.mk _ _ _ _ _ = _
        rw [hfirst, hc.steps_snd none [] hr]
        rfl
      rw [hboth, hitems, hsecond, hcount, List.nil_append]
      change _ = (items ++ []) ++ _ ∧ _
      rw [List.append_nil]
      exact hc.reading_append (Stream.lines ⟨b, none⟩)
  · intro hmeets
    obtain rfl := hquit.1 hmeets
    rw [hitems, hboth]
    exact hc.items_eq none _ nofun

/-- Every line of a script is read once. -/
theorem accountsForLines (bytes : List UInt8) : AccountsForLines bytes where
  increases := isChain_lineNumber (ofStream ⟨bytes, none⟩) rfl
  reported := by
    intro e r h
    obtain ⟨before, hn, hs⟩ := exists_next_of_mem_steps h
    exact (lineNumber_next hs hn).2 e rfl
  unread := fun n => (lines_ask (Stream.lines ⟨bytes, none⟩) n).1
  all := by
    intro hnot
    obtain ⟨used, rest, items, o, hl, hc, hr⟩ :=
      exists_course .empty 0 (Stream.lines ⟨bytes, none⟩)
    have hreader : ofStream ⟨bytes, none⟩ = ⟨used ++ rest, none, 0, .empty, false⟩ := by
      rw [ofStream, hl]
    rw [hreader, hc.meetsQuit_iff none rest hr] at hnot
    rw [hreader, hc.steps_snd none rest hr, ← Stream.length_lines, hl]
    cases o with
    | item item => exact absurd rfl (hc.ne_item item)
    | quit => exact absurd rfl hnot
    | ended | owing =>
      obtain rfl := hr rfl
      rw [List.append_nil]
      exact Nat.zero_add _

/-- Reading is compositional and accounts for every line. -/
theorem readsInTurn_and_accountsForLines (a b : List UInt8) (ha : Stream.EndsInLine a) :
    ReadsInTurn a b ∧ ∀ bytes, AccountsForLines bytes :=
  ⟨readsInTurn a b ha, accountsForLines⟩

/-- The second script uses a name of the first, and its errors are behind the lines of the first;
the last of its lines has no newline. -/
theorem readsInTurn_and_accountsForLines_scene :
    let a := Utf8.encode "constants\nshiny 0 0 0 1 1 1 2 2 2\n// no command\n\nfoo\n".toList
    let b := Utf8.encode "sphere\nshiny 0 1 2 -1.5\nsphere\ndull 0 1 2 3\nbar".toList
    let shiny : Reflectance := ⟨⟨0, 0, 0⟩, ⟨1, 1, 1⟩, ⟨2, 2, 2⟩⟩
    Stream.EndsInLine a ∧
      (ofStream ⟨a ++ b, none⟩).items =
        [.ok (.constants "shiny" shiny), .error (.unknownCommand 5 "foo".toList)] ++
          [.ok (.sphere ⟨0, 1, 2⟩ (-1.5) (some shiny)),
            .error (.unknownConstants 4 "dull".toList),
            .error (.unknownCommand 5 "bar".toList)].map (Item.raise 5) ∧
      (ofStream ⟨a ++ b, none⟩).steps.2.lineNumber = 10 := by
  intro a b shiny
  have ha : Stream.EndsInLine a := by decide +kernel
  have hfirst : (ofStream ⟨a, none⟩).items =
      [.ok (.constants "shiny" shiny), .error (.unknownCommand 5 "foo".toList)] := by
    decide +kernel
  have hquit : ¬ MeetsQuit (ofStream ⟨a, none⟩) := by
    rw [meetsQuit_iff_finished rfl rfl]
    decide +kernel
  have hlast (n : Nat) (k : Keyword) :
      (ofStream ⟨a, none⟩).items.getLast? ≠ some (.error (.missingArguments n k)) := by
    rw [hfirst]
    nofun
  obtain ⟨hturn, hlines⟩ := readsInTurn_and_accountsForLines a b ha
  refine ⟨ha, ?_, ((hlines (a ++ b)).all ?_).trans (by decide +kernel)⟩
  · rw [(hturn.goesOn hquit hlast).1, hfirst]
    decide +kernel
  · rw [meetsQuit_iff_finished rfl rfl]
    decide +kernel

end Reader

end SceneScript
