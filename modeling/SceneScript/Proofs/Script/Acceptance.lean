import SceneScript.Proofs.Script.Grammar
import SceneScript.Proofs.Script.Headings
import SceneScript.Proofs.Script.Lines
import SceneScript.Proofs.Script.Profiles

/-!
# What scripts are read as

The grammar of scripts is told without a reader: `Yields` goes along the lines of a script, one rule
for each thing that a command can be, and says which items they yield. Every script yields some
items (`exists_yields`), and a reader yields just these (`items_eq_iff_yields`).

The rules carry the definitions made so far, newest first, since the profile that an argument line
names is the newest of that name.
-/

namespace SceneScript

/-- The keywords with an argument line behind them. -/
def Keyword.withArgumentLine : List Keyword :=
  [move, rotate, scale, box, sphere, torus, circle, hermite, bezier, line, save, constants]

namespace Reader

open Arguments (Accepts Rejects)
open Text (Trims)

/-- The items that lines yield when `n` lines have been read and definitions made, the newest
first. -/
inductive Yields : List (String × Reflectance) → Nat → List (List UInt8) → List Item → Prop
  | ended : Yields defs n [] []
  | idle : Trims text word → Idle word → Yields defs (n + 1) rest later →
      Yields defs n (Utf8.encode text :: rest) later
  | quit : Trims text Keyword.quit.text.toList → Yields defs n (Utf8.encode text :: rest) []
  | alone : op ∈ [.push, .pop, .clear, .display] → Trims text op.keyword.text.toList →
      Yields defs (n + 1) rest later →
      Yields defs n (Utf8.encode text :: rest) (.ok op :: later)
  | operation : Trims command k.text.toList →
      Accepts (fun name => defs.lookup name) k text op →
      Yields (op.definition?.toList ++ defs) (n + 2) rest later →
      Yields defs n (Utf8.encode command :: Utf8.encode text :: rest) (.ok op :: later)
  /-- The text is none of the keywords. -/
  | unknownCommand : Trims text word → ¬ Idle word → (∀ k : Keyword, word ≠ k.text.toList) →
      Yields defs (n + 1) rest later →
      Yields defs n (Utf8.encode text :: rest) (.error (.unknownCommand (n + 1) word) :: later)
  /-- A line between commands is no text. -/
  | undecodable : (∀ text, line ≠ Utf8.encode text) → Yields defs (n + 1) rest later →
      Yields defs n (line :: rest) (.error (.invalidEncoding (n + 1)) :: later)
  /-- The script ends where an argument line should be. -/
  | missing : Trims command k.text.toList → k ∈ Keyword.withArgumentLine →
      Yields defs n [Utf8.encode command] [.error (.missingArguments (n + 1) k)]
  /-- An argument line is no text. -/
  | undecodableArguments : Trims command k.text.toList → k ∈ Keyword.withArgumentLine →
      (∀ text, line ≠ Utf8.encode text) → Yields defs (n + 2) rest later →
      Yields defs n (Utf8.encode command :: line :: rest)
        (.error (.invalidEncoding (n + 2)) :: later)
  /-- An argument line names a profile that is not defined. -/
  | undefined : Trims command k.text.toList →
      Rejects (fun name => defs.lookup name) k text (.undefined name) →
      Yields defs (n + 2) rest later →
      Yields defs n (Utf8.encode command :: Utf8.encode text :: rest)
        (.error (.unknownConstants (n + 2) name) :: later)
  /-- An argument line has another fault. -/
  | malformed : Trims command k.text.toList →
      Rejects (fun name => defs.lookup name) k text (.malformed p) →
      Yields defs (n + 2) rest later →
      Yields defs n (Utf8.encode command :: Utf8.encode text :: rest)
        (.error (.invalidArguments (n + 2) k p) :: later)

variable {k : Keyword} {op : Operation} {defs : List (String × Reflectance)} {n : Nat}
  {lines used rest : List (List UInt8)} {items : List Item} {item : Item} {t : ProfileTable}
  {line : List UInt8} {command text : List Char} {fault : ArgumentFault}

/-! ## Every script yields something -/

/-- A keyword has an argument line behind it when its command reads one. -/
theorem mem_withArgumentLine_iff :
    k ∈ Keyword.withArgumentLine ↔ ∃ read, k.command = .withArguments read := by
  cases k <;> simp [Keyword.withArgumentLine, Keyword.command]

/-- An operation stands alone when its command is nothing else. -/
theorem mem_alone_iff :
    op ∈ [.push, .pop, .clear, .display] ↔ op.keyword.command = .alone op := by
  cases op <;> simp [Operation.keyword, Keyword.command]

/-- Every script yields some items. -/
theorem exists_yields (defs : List (String × Reflectance)) (n : Nat) (lines : List (List UInt8)) :
    ∃ items, Yields defs n lines items := by
  match lines with
  | [] => exact ⟨[], .ended⟩
  | line :: lines =>
    rcases heading_cases line with ⟨text, word, rfl, ht, hi⟩ | ⟨command, k, rfl, hc⟩ |
      ⟨text, word, rfl, ht, hi, hk⟩ | hl
    · obtain ⟨items, h⟩ := exists_yields defs (n + 1) lines
      exact ⟨items, .idle ht hi h⟩
    · cases hk : k.command with
      | quit =>
        obtain rfl : k = .quit := by cases k <;> cases hk; rfl
        exact ⟨[], .quit hc⟩
      | alone op =>
        obtain ⟨items, h⟩ := exists_yields defs (n + 1) lines
        obtain rfl := keyword_of_alone hk
        exact ⟨_, .alone (mem_alone_iff.2 hk) hc h⟩
      | withArguments read =>
        -- whatever the line behind it holds, it goes with the command
        have hmem := mem_withArgumentLine_iff.2 ⟨read, hk⟩
        match lines with
        | [] => exact ⟨_, .missing hc hmem⟩
        | args :: lines =>
          by_cases ht : ∃ text, args = Utf8.encode text
          · obtain ⟨text, rfl⟩ := ht
            rcases Arguments.accepts_or_rejects (fun name => defs.lookup name) hk text with
              ⟨op, ha⟩ | ⟨fault, hr⟩
            · obtain ⟨items, h⟩ := exists_yields (op.definition?.toList ++ defs) (n + 2) lines
              exact ⟨_, .operation hc ha h⟩
            · obtain ⟨items, h⟩ := exists_yields defs (n + 2) lines
              cases fault with
              | undefined name => exact ⟨_, .undefined hc hr h⟩
              | malformed p => exact ⟨_, .malformed hc hr h⟩
          · obtain ⟨items, h⟩ := exists_yields defs (n + 2) lines
            exact ⟨_, .undecodableArguments hc hmem (not_exists.1 ht) h⟩
    · obtain ⟨items, h⟩ := exists_yields defs (n + 1) lines
      exact ⟨_, .unknownCommand ht hi hk h⟩
    · obtain ⟨items, h⟩ := exists_yields defs (n + 1) lines
      exact ⟨_, .undecodable hl h⟩
termination_by lines.length

/-! ## Readers yield what their scripts yield -/

/-- The reader of lines that `n` lines come before, in a stream that does not break. -/
def reading (t : ProfileTable) (n : Nat) (lines : List (List UInt8)) : Reader :=
  ⟨lines, none, n, t, false⟩

/-- Where no line is left no item is. -/
theorem items_reading_nil (t : ProfileTable) (n : Nat) : (reading t n []).items = [] :=
  items_of_none (r := reading t n []) rfl

/-- Lines that an item takes yield it, and the lines behind them yield the other items. -/
theorem items_reading_append (h : Takes t n used (.item item)) (rest : List (List UInt8)) :
    (reading t n (used ++ rest)).items =
      item :: (reading (t.afterItem item) (n + used.length) rest).items :=
  items_of_some (h.nextItem none rest nofun)

/-- An idle line yields nothing. -/
theorem items_reading_idle (h : heading line = .passedOver) :
    (reading t n (line :: lines)).items = (reading t (n + 1) lines).items := by
  have hnext : (reading t n (line :: lines)).next = (reading t (n + 1) lines).next := by
    change nextItem none t n (line :: lines) = nextItem none t (n + 1) lines
    rw [nextItem_cons, h]
  cases hn : (reading t (n + 1) lines).next with
  | mk item? r' =>
    cases item? with
    | none => rw [items_of_none hn, items_of_none (hnext.trans hn)]
    | some item => rw [items_of_some hn, items_of_some (hnext.trans hn)]

/-- An argument line that is text yields what its command makes of it. -/
theorem items_reading_arguments
    {read : ProfileTable → List Char → Except ArgumentFault Operation}
    (hc : Trims command k.text.toList) (hk : k.command = .withArguments read)
    (hi : (read t text).mapError (argumentError k (n + 2)) = item) (rest : List (List UInt8)) :
    (reading t n (Utf8.encode command :: Utf8.encode text :: rest)).items =
      item :: (reading (t.afterItem item) (n + 2) rest).items := by
  rw [← argumentItem_encode] at hi
  have htakes : Takes t n [Utf8.encode command, Utf8.encode text] (.item item) :=
    hi ▸ .withArguments (heading_keyword hc) hk
  exact items_reading_append htakes rest

/-- A reader that knows the definitions made so far yields what its lines yield. -/
theorem Yields.items_eq (h : Yields defs n lines items)
    (ht : t.lookup = fun name => defs.lookup name) : (reading t n lines).items = items := by
  -- the table and the definitions answer alike all along, though the table forgets the older ones
  induction h generalizing t with
  | ended => exact items_reading_nil t _
  | idle htext hi _ ih => rw [items_reading_idle (heading_idle htext hi), ih ht]
  | quit htext =>
    exact items_of_none (Takes.nextItem (.quit (heading_keyword htext) rfl) none _ nofun)
  | @alone op text defs n rest items hop htext _ ih =>
    have hcommand : op.keyword.command = .alone op := mem_alone_iff.1 hop
    rw [← List.singleton_append, items_reading_append (.alone (heading_keyword htext) hcommand)]
    refine congrArg (_ :: ·) (ih ?_)
    rw [ProfileTable.afterItem, after_alone hcommand, ht]
  | operation hc ha _ ih =>
    obtain ⟨read, hk⟩ := ha.exists_command
    have hread := (show Accepts t.lookup _ _ _ from ht ▸ ha).read_eq hk
    rw [items_reading_arguments hc hk (congrArg _ hread)]
    exact congrArg (_ :: ·) (ih (funext (ProfileTable.lookup_after (congrFun ht) _)))
  | unknownCommand htext hi hk _ ih =>
    rw [← List.singleton_append, items_reading_append (.unknown (heading_unknown htext hi hk))]
    exact congrArg (_ :: ·) (ih ht)
  | undecodable hl _ ih =>
    rw [← List.singleton_append, items_reading_append (.undecodable (heading_undecodable hl))]
    exact congrArg (_ :: ·) (ih ht)
  | @missing command k defs n hc hmem =>
    obtain ⟨read, hk⟩ := mem_withArgumentLine_iff.1 hmem
    have hnext : (reading t n [Utf8.encode command]).next =
        (some (.error (.missingArguments (n + 1) k)), reading t (n + 1) []) :=
      Takes.nextItem (.owing (heading_keyword hc) hk) none [] fun _ => rfl
    rw [items_of_some hnext, items_reading_nil]
  | @undecodableArguments command k line defs n rest items hc hmem hl _ ih =>
    obtain ⟨read, hk⟩ := mem_withArgumentLine_iff.1 hmem
    obtain ⟨fault, hf⟩ := Utf8.exists_decode_eq_error_iff.2 hl
    have hitem : argumentItem k read t (n + 2) line = .error (.invalidEncoding (n + 2)) := by
      rw [argumentItem, hf]
    have htakes : Takes t n [Utf8.encode command, line]
        (.item (.error (.invalidEncoding (n + 2)))) :=
      hitem ▸ .withArguments (heading_keyword hc) hk
    exact (items_reading_append htakes rest).trans (congrArg (_ :: ·) (ih ht))
  | undefined hc hr _ ih | malformed hc hr _ ih =>
    obtain ⟨read, hk⟩ := hr.exists_command
    have hread := (show Rejects t.lookup _ _ _ from ht ▸ hr).read_eq hk
    rw [items_reading_arguments hc hk (congrArg _ hread)]
    exact congrArg (_ :: ·) (ih ht)

/-- Scripts are read as their lines say. -/
theorem items_eq_iff_yields (bytes : List UInt8) (items : List Item) :
    (ofStream ⟨bytes, none⟩).items = items ↔
      ∃ lines, Stream.Lined bytes lines ∧ Yields [] 0 lines items := by
  have hitems {items : List Item} (h : Yields [] 0 (Stream.lines ⟨bytes, none⟩) items) :
      (ofStream ⟨bytes, none⟩).items = items := h.items_eq (t := .empty) rfl
  constructor
  · rintro rfl
    obtain ⟨items, h⟩ := exists_yields [] 0 (Stream.lines ⟨bytes, none⟩)
    exact ⟨_, Stream.lines_eq_iff.1 rfl, hitems h ▸ h⟩
  · rintro ⟨lines, hl, h⟩
    exact hitems (Stream.lines_eq_iff.2 hl ▸ h)

end Reader

end SceneScript
