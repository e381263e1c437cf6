import SceneScript.Proofs.Decimal.Plain
import SceneScript.Proofs.Script.Course
import SceneScript.Proofs.Script.Acceptance
import SceneScript.Proofs.Script.Isolation

/-!
# Listings as scripts

An operation is listed as its keyword and its operands on one line, and a script has the operands
on a line of their own. So where the first space of a listing becomes the end of a line, the listing
is a command (`scriptOf`), and reading it gives the operation again (`ofStream_scriptOf`). This is
so for operations that bring no profile along, since a listing shows a profile in a form that
scripts do not have, and for paths that are a line without blanks at its ends.

The fields of an operation are the words of its argument line (`words_argumentLine`), and they mean
this operation whatever names are defined (`accepts_argumentLine`), so each command leads to its own
item and the items follow from there by induction (`course_scriptLines`).
-/

namespace SceneScript

/-- A text that is one word. -/
def Text.IsWord (w : List Char) : Prop := w ≠ [] ∧ ∀ c ∈ w, Text.isBlank c = false

/-- No blank stands in a word. -/
theorem Text.IsWord.not_mem {w : List Char} {c : Char} (h : IsWord w) (hc : isBlank c = true) :
    c ∉ w :=
  fun hmem => Bool.false_ne_true ((h.2 c hmem).symm.trans hc)

/-- A word is trimmed. -/
theorem Text.IsWord.trims {w : List Char} (h : IsWord w) : Trims w w :=
  ⟨[], [], (List.append_nil w).symm, nofun, nofun, fun c hc => h.2 c (List.mem_of_mem_head? hc),
    fun c hc => h.2 c (List.mem_of_getLast? hc)⟩

/-- Whether a text is a word is decided by its characters. -/
theorem Text.isWord_of_all {w : List Char} (hne : w ≠ [])
    (h : w.all (fun c => !isBlank c) = true) : IsWord w :=
  ⟨hne, fun c hc => by simpa using List.all_eq_true.1 h c hc⟩

/-- A keyword is a word. -/
theorem Keyword.isWord_text (k : Keyword) : Text.IsWord k.text.toList := by
  cases k <;> exact Text.isWord_of_all (by decide) (by decide)

namespace Decimal

open Text (IsWord isBlank)

/-! ## Numbers as text -/

/-- No digit is a blank. -/
theorem not_isBlank_of_isDigit {c : Char} (h : isDigit c = true) : isBlank c = false := by
  rw [isDigit, Bool.and_eq_true, decide_eq_true_eq, decide_eq_true_eq] at h
  have hlow : 48 ≤ c.toNat := h.1
  have hhigh : c.toNat ≤ 57 := h.2
  simp only [isBlank, Text.blankRanges, List.any_cons, List.any_nil, Bool.or_false,
    Bool.or_eq_false_iff, Bool.and_eq_false_imp, decide_eq_true_eq, decide_eq_false_iff_not,
    Nat.not_le]
  omega

/-- A number is written as one word. -/
theorem isWord_text (x : Float) : IsWord (Layout.plain.text x) := by
  have hothers : IsWord ['-', '.', 'N', 'a', 'i', 'n', 'f'] :=
    Text.isWord_of_all (List.cons_ne_nil _ _) (by decide)
  refine ⟨text_ne_nil x, fun c hc => ?_⟩
  exact (isDigit_or_mem_of_mem_text x c hc).elim not_isBlank_of_isDigit (hothers.2 c)

end Decimal

open Decimal (Layout)
open Text (IsWord isBlank Parted Trims)

namespace Operation

/-! ## Listings and lines -/

/-- A listing with the end of a line in the place of its first space. -/
def command (op : Operation) : List Char := op.listing.replace ' ' '\n' ++ ['\n']

/-- The fields an operation is listed with. -/
def fields (op : Operation) : List (List Char) :=
  op.label?.toList ++ op.numbers.map Layout.plain.text

/-- Fields parted by single spaces. -/
def argumentLine : List (List Char) → List Char
  | [] => []
  | field :: fields => field ++ spaced fields

/-- The lines of an operation: its keyword, and its arguments if it has any. -/
def commandLines (op : Operation) : List (List Char) :=
  op.keyword.text.toList :: if op.fields.isEmpty then [] else [argumentLine op.fields]

/-- The operation can be a command of a script as it is listed: it brings no profile along, and a
path is a line that blanks neither start nor end. -/
structure Listable (op : Operation) : Prop where
  profile : op.profile? = none
  path : ∀ path, op = .save path → path ≠ "" ∧ '\n' ∉ path.toList ∧
    (∀ c ∈ path.toList.head?, isBlank c = false) ∧ ∀ c ∈ path.toList.getLast?, isBlank c = false

variable {op : Operation}

/-- The first space of a listing stands behind the keyword. -/
theorem command_eq (h : op.profile? = none) :
    op.command = op.commandLines.flatMap (· ++ ['\n']) := by
  have hkeyword : ' ' ∉ op.keyword.text.toList := op.keyword.isWord_text.not_mem (by decide)
  have hlisting : op.listing = op.keyword.text.toList ++ spaced op.fields := by
    rw [listing, h]
    exact List.append_nil _
  rw [command, commandLines, hlisting, List.replace_append_right hkeyword]
  cases op.fields with
  | nil => simp [spaced]
  | cons field fields => simp [spaced, argumentLine]

/-! ## Argument lines -/

/-- The fields of an argument line are its words. -/
theorem words_argumentLine {fields : List (List Char)} (h : ∀ field ∈ fields, IsWord field) :
    Text.words (argumentLine fields) = fields := by
  have hspace : isBlank ' ' = true := by decide
  have hspaced : Text.words (spaced fields) = fields := by
    induction fields with
    | nil => rfl
    | cons field fields ih =>
      obtain ⟨⟨hne, hsolid⟩, hfields⟩ := List.forall_mem_cons.1 h
      have hhead : ∀ c ∈ (spaced fields).head?, isBlank c = true := by
        cases fields with
        | nil => exact nofun
        | cons =>
          rintro c ⟨⟩
          exact hspace
      change Text.words (' ' :: (field ++ spaced fields)) = _
      rw [Text.words_blank hspace, Text.words_run hne hsolid hhead, ih hfields]
  cases fields with
  | nil => rfl
  | cons field fields => exact (Text.words_blank hspace (field ++ spaced fields)).symm.trans hspaced

/-- The letter of an axis is a word. -/
theorem isWord_letter (axis : Axis) : IsWord [axis.letter] := by
  cases axis <;> exact Text.isWord_of_all (List.cons_ne_nil _ _) (by decide)

/-- Numbers are listed as words. -/
theorem isWord_of_mem_texts {xs : List Float} :
    ∀ field ∈ xs.map Layout.plain.text, IsWord field :=
  List.forall_mem_map.2 fun x _ => Decimal.isWord_text x

/-- The fields of an operation that has numbers mean that operation, whatever names are defined. -/
theorem means_fields {known : String → Option Reflectance} (h : op.profile? = none)
    (hne : op.numbers ≠ [])
    (hn : Arguments.Numbers (op.numbers.map Layout.plain.text) op.numbers) :
    Arguments.Means known op.keyword op.fields op := by
  cases op with
  | push | pop | clear | display | save | constants => exact absurd rfl hne
  | move => exact .move hn
  | rotate axis => exact .rotate (Axis.ofChar?_eq_some_iff.1 (Axis.ofChar?_letter axis)) hn
  | scale => exact .scale hn
  | box =>
    cases h
    exact .box .unnamed hn
  | sphere =>
    cases h
    exact .sphere .unnamed hn
  | torus =>
    cases h
    exact .torus .unnamed hn
  | circle => exact .circle hn
  | hermite => exact .hermite hn
  | bezier => exact .bezier hn
  | line => exact .line hn

/-- The argument line of an operation is accepted as that operation. -/
theorem accepts_argumentLine {known : String → Option Reflectance} {read} (h : op.Listable)
    (hk : op.keyword.command = .withArguments read)
    (hn : Arguments.Numbers (op.numbers.map Layout.plain.text) op.numbers) :
    Arguments.Accepts known op.keyword (argumentLine op.fields) op := by
  have hfields (hf : ∀ field ∈ op.fields, IsWord field) (hne : op.numbers ≠ []) :
      Arguments.Accepts known op.keyword (argumentLine op.fields) op :=
    .fields (Text.words_eq_iff.1 (words_argumentLine hf)) (means_fields h.profile hne hn)
  cases op with
  | push | pop | clear | display => cases hk
  | constants => cases h.profile
  | save path =>
    -- a path may hold spaces: it is the whole line and no field
    obtain ⟨hne, -, hhead, hlast⟩ := h.path path rfl
    have htrims : Trims (argumentLine [path.toList]) path.toList :=
      ⟨[], [], rfl, nofun, nofun, hhead, hlast⟩
    have hpath : path.toList ≠ [] := mt String.toList_eq_nil_iff.1 hne
    have haccepts : Arguments.Accepts known .save (argumentLine [path.toList])
        (.save (String.ofList path.toList)) := .path htrims hpath
    rw [String.ofList_toList] at haccepts
    exact haccepts
  | rotate axis degrees =>
    refine hfields ?_ (List.cons_ne_nil _ _)
    exact List.forall_mem_cons.2 ⟨isWord_letter axis, isWord_of_mem_texts⟩
  | _ => exact hfields isWord_of_mem_texts (List.cons_ne_nil _ _)

/-- A reader takes the lines of an operation for it. -/
theorem takes_commandLines (h : op.Listable)
    (hn : Arguments.Numbers (op.numbers.map Layout.plain.text) op.numbers) (t : ProfileTable)
    (n : Nat) : Reader.Takes t n (op.commandLines.map Utf8.encode) (.item (.ok op)) := by
  have hline := Reader.heading_keyword op.keyword.isWord_text.trims
  rw [commandLines]
  cases hk : op.keyword.command with
  | quit => cases op <;> cases hk
  | alone op' =>
    have hop : op.fields.isEmpty = true ∧ op' = op := by
      cases op <;> cases hk <;> exact ⟨rfl, rfl⟩
    rw [if_pos hop.1, ← hop.2]
    exact .alone (hop.2 ▸ hline) (hop.2 ▸ hk)
  | withArguments read =>
    have hne : ¬ op.fields.isEmpty = true := by
      cases op <;> first | exact Bool.false_ne_true | cases hk
    have hitem : Reader.argumentItem op.keyword read t (n + 2)
        (Utf8.encode (argumentLine op.fields)) = .ok op := by
      rw [Reader.argumentItem_encode, (accepts_argumentLine h hk hn).read_eq hk]
      rfl
    rw [if_neg hne]
    exact hitem ▸ .withArguments hline hk

/-! ## Scripts -/

/-- Words hold no blanks. -/
theorem not_mem_of_isWord {c : Char} (hc : isBlank c = true) {fields : List (List Char)}
    (h : ∀ field ∈ fields, IsWord field) : ∀ field ∈ fields, c ∉ field :=
  fun field hfield => (h field hfield).not_mem hc

/-- Between fields there are spaces and nothing else. -/
theorem not_mem_spaced {c : Char} (hc : c ≠ ' ') {fields : List (List Char)}
    (h : ∀ field ∈ fields, c ∉ field) : c ∉ spaced fields := by
  simpa [spaced, hc] using h

/-- No field that an operation is listed with holds the end of a line. -/
theorem newline_not_mem_fields (h : op.Listable) : ∀ field ∈ op.fields, '\n' ∉ field := by
  have hnewline : isBlank '\n' = true := by decide
  cases op with
  | push | pop | clear | display => exact nofun
  | constants => cases h.profile
  | save path => exact List.forall_mem_singleton.2 (h.path path rfl).2.1
  | rotate axis degrees =>
    refine not_mem_of_isWord hnewline ?_
    exact List.forall_mem_cons.2 ⟨isWord_letter axis, isWord_of_mem_texts⟩
  | _ => exact not_mem_of_isWord hnewline isWord_of_mem_texts

/-- The lines of an operation are lines. -/
theorem newline_not_mem_commandLines (h : op.Listable) : ∀ line ∈ op.commandLines, '\n' ∉ line := by
  have hfields := newline_not_mem_fields h
  rw [commandLines]
  refine List.forall_mem_cons.2 ⟨op.keyword.isWord_text.not_mem (by decide), ?_⟩
  cases hf : op.fields with
  | nil => exact nofun
  | cons field fields =>
    rw [hf] at hfields
    obtain ⟨hfield, hfields⟩ := List.forall_mem_cons.1 hfields
    refine List.forall_mem_singleton.2 fun hmem => ?_
    exact (List.mem_append.1 hmem).elim hfield (not_mem_spaced (by decide) hfields)

end Operation

/-- The script of listings: each is a command. -/
def scriptOf (ops : List Operation) : List Char := ops.flatMap Operation.command

variable {ops : List Operation}

/-- The bytes of a script of listings are the lines of its operations. -/
theorem encode_scriptOf (h : ∀ op ∈ ops, op.Listable) :
    Utf8.encode (scriptOf ops) =
      Stream.join (ops.flatMap fun op => op.commandLines.map Utf8.encode) := by
  have hlines (lines : List (List Char)) :
      Utf8.encode (lines.flatMap (· ++ ['\n'])) = Stream.join (lines.map Utf8.encode) := by
    simp [Utf8.encode, Stream.join, List.flatMap_assoc, List.flatMap_map, String.utf8EncodeChar,
      Stream.newline]
  induction ops with
  | nil => rfl
  | cons op ops ih =>
    obtain ⟨hop, hops⟩ := List.forall_mem_cons.1 h
    have hcommand : Utf8.encode op.command = Stream.join (op.commandLines.map Utf8.encode) := by
      rw [Operation.command_eq hop.profile, hlines]
    calc Utf8.encode (scriptOf (op :: ops))
      _ = Utf8.encode op.command ++ Utf8.encode (scriptOf ops) := List.flatMap_append
      _ = _ := by
        rw [hcommand, ih hops, List.flatMap_cons]
        exact List.flatMap_append.symm

/-- A reader of a script of listings gets the lines of its operations. -/
theorem lines_scriptOf (h : ∀ op ∈ ops, op.Listable) :
    Stream.lines ⟨Utf8.encode (scriptOf ops), none⟩ =
      ops.flatMap fun op => op.commandLines.map Utf8.encode := by
  have hnewline : ∀ line ∈ ops.flatMap fun op => op.commandLines.map Utf8.encode,
      Stream.newline ∉ line := by
    intro line hmem
    obtain ⟨op, hop, hline⟩ := List.mem_flatMap.1 hmem
    obtain ⟨text, htext, rfl⟩ := List.mem_map.1 hline
    exact mt (Utf8.mem_encode_ascii (a := '\n') (by decide)).1
      (Operation.newline_not_mem_commandLines (h op hop) text htext)
  have hcomplete := Stream.completeLines_join_append hnewline
    (List.not_mem_nil (a := Stream.newline))
  rw [List.append_nil] at hcomplete
  rw [Stream.lines_of_ends, encode_scriptOf h, hcomplete]
  exact List.append_nil _

/-- An operation that brings no profile along defines no name. -/
theorem ProfileTable.after_of_profile {op : Operation} (h : op.profile? = none)
    (t : ProfileTable) : t.after op = t := by
  cases op with
  | constants => cases h
  | _ => rfl

/-- A script of listings takes the course of its operations. -/
theorem course_scriptLines (h : ∀ op ∈ ops, op.Listable)
    (hn : ∀ op ∈ ops, Arguments.Numbers (op.numbers.map Layout.plain.text) op.numbers)
    (t : ProfileTable) (n : Nat) :
    Reader.Course t n (ops.flatMap fun op => op.commandLines.map Utf8.encode) (ops.map .ok)
        .ended ∧ t.afterItems (ops.map .ok) = t := by
  induction ops generalizing n with
  | nil => exact ⟨.stop .ended nofun, rfl⟩
  | cons op ops ih =>
    obtain ⟨hop, hops⟩ := List.forall_mem_cons.1 h
    obtain ⟨hnop, hnops⟩ := List.forall_mem_cons.1 hn
    have hafter : t.afterItem (.ok op) = t := ProfileTable.after_of_profile hop.profile t
    have htakes := Operation.takes_commandLines hop hnop t n
    obtain ⟨hcourse, htable⟩ := ih hops hnops (n + (op.commandLines.map Utf8.encode).length)
    rw [List.map_cons, List.flatMap_cons]
    refine ⟨.item htakes (hafter.symm ▸ hcourse), ?_⟩
    rw [ProfileTable.afterItems, List.foldl_cons, hafter]
    exact htable

/-- Listings read back: a script of listings is read without errors to the operations listed, as
long as the text of each of their numbers reads as that number. -/
theorem ofStream_scriptOf (h : ∀ op ∈ ops, op.Listable)
    (hn : ∀ op ∈ ops, ∀ x ∈ op.numbers, Decimal.number? (Layout.plain.text x) = some x) :
    ScriptContents.ofStream ⟨Utf8.encode (scriptOf ops), none⟩ = ⟨ops, [], .empty⟩ := by
  have hnumbers : ∀ op ∈ ops, Arguments.Numbers (op.numbers.map Layout.plain.text) op.numbers :=
    fun op hop => List.forall₂_map_left_iff.2 (List.forall₂_same.2 (hn op hop))
  obtain ⟨hcourse, htable⟩ := course_scriptLines h hnumbers .empty 0
  have hreader : Reader.ofStream ⟨Utf8.encode (scriptOf ops), none⟩ =
      ⟨(ops.flatMap fun op => op.commandLines.map Utf8.encode) ++ [], none, 0, .empty, false⟩ := by
    rw [Reader.ofStream, lines_scriptOf h, List.append_nil]
  rw [ScriptContents.ofStream_eq, hreader, hcourse.items_eq none [] fun _ => rfl,
    hcourse.steps_snd none [] fun _ => rfl, htable]
  change ScriptContents.mk ((ops.map Except.ok ++ []).filterMap _)
    ((ops.map Except.ok ++ []).filterMap _) _ = _
  rw [List.append_nil, List.filterMap_map, List.filterMap_map]
  congr 1
  · exact List.filterMap_some
  · exact List.filterMap_eq_nil_iff.2 fun _ _ => rfl

/-- Every kind of operation, with numbers of every kind, a path with a space in it, and a radius
that is not a number. -/
theorem ofStream_scriptOf_scene :
    let nan := Float.ofBits 0x7ff8000000000000
    let ops : List Operation := [.push, .move ⟨0.1 + 0.2, -0.0, 1e21⟩, .rotate .y (-1e-7),
      .scale ⟨5e-324, 1.7976931348623157e308, 1 / 3⟩, .box ⟨1, 2, 3⟩ ⟨4, 5, 6⟩ none,
      .sphere ⟨0, 1, 2⟩ nan none, .torus ⟨1, 2, 3⟩ 4.5 (1 / 0) none, .circle ⟨0, 0, 0⟩ (-1 / 0),
      .hermite ⟨1, 2⟩ ⟨3, 4⟩ ⟨5, 6⟩ ⟨7, 8⟩, .bezier ⟨1, 2⟩ ⟨3, 4⟩ ⟨5, 6⟩ ⟨7, 8⟩,
      .line ⟨1, 2, 3⟩ ⟨4, 5, 6⟩, .pop, .save "my scene.png", .clear, .display]
    (∀ op ∈ ops, op.Listable) ∧
      (∀ op ∈ ops, ∀ x ∈ op.numbers, Decimal.number? (Layout.plain.text x) = some x) ∧
      ScriptContents.ofStream ⟨Utf8.encode (scriptOf ops), none⟩ = ⟨ops, [], .empty⟩ := by
  intro nan ops
  have hprofile : ∀ op ∈ ops, op.profile? = none := by decide +kernel
  have hlistable : ∀ op ∈ ops, op.Listable := by
    intro op hop
    refine ⟨hprofile op hop, ?_⟩
    rintro path rfl
    obtain rfl : path = "my scene.png" := by simpa [ops] using hop
    refine ⟨by decide, by decide, ?_, ?_⟩
    · rintro c ⟨⟩
      decide
    · rintro c ⟨⟩
      decide
  have hnumbers : ∀ op ∈ ops, ∀ x ∈ op.numbers,
      Decimal.number? (Layout.plain.text x) = some x := by
    decide +kernel
  exact ⟨hlistable, hnumbers, ofStream_scriptOf hlistable hnumbers⟩

end SceneScript
