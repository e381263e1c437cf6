import SceneScript.Proofs.Script.Lines
import SceneScript.Proofs.Script.Taking
import SceneScript.Proofs.Text.Encoding
import SceneScript.Proofs.Text.Words

/-!
# Blanks around lines

Blanks at the ends of a line mean nothing, be it a command, a comment, an argument line or no text
at all. A padded line decodes when the line does (`decode_line`), and then a command makes the same
of it, since it looks at the words of the line or trims it (`read_line`). So the line is the same
command or the same arguments (`heading_line`, `argumentItem_line`), and a reader of padded lines is
at every step the reader of the lines with what is left of them padded (`next_pad`, `steps_pad`).

A stream is padded line by line, and the newlines stay where they are (`lines_pad`). Ending lines
with a carriage return and a newline is one way to pad them (`crlf_eq_pad`).
-/

namespace SceneScript

/-- Blanks around a line, none of which ends a line. -/
structure Padding where
  before : List Char
  after : List Char
  isBlank_before : ∀ c ∈ before, Text.isBlank c = true
  isBlank_after : ∀ c ∈ after, Text.isBlank c = true
  newline_not_mem : '\n' ∉ before ++ after

namespace Padding

/-- The line with the blanks around it. -/
def line (p : Padding) (bytes : List UInt8) : List UInt8 :=
  Utf8.encode p.before ++ bytes ++ Utf8.encode p.after

/-- Lines with blanks around them, `n` lines having come before. -/
def padLines (p : Nat → Padding) (n : Nat) : List (List UInt8) → List (List UInt8)
  | [] => []
  | bytes :: rest => (p (n + 1)).line bytes :: padLines p (n + 1) rest

/-- No blanks. -/
def nothing : Padding := ⟨[], [], nofun, nofun, nofun⟩

/-- A carriage return behind the line. -/
def carriageReturn : Padding := ⟨[], ['\r'], nofun, List.forall_mem_singleton.2 rfl, by decide⟩

variable {p : Nat → Padding} {q : Padding} {n : Nat} {bytes : List UInt8}
  {used : List (List UInt8)}

theorem padLines_append (p : Nat → Padding) (n : Nat) (used rest : List (List UInt8)) :
    padLines p n (used ++ rest) = padLines p n used ++ padLines p (n + used.length) rest := by
  induction used generalizing n with
  | nil => rfl
  | cons bytes used ih =>
    rw [List.cons_append, padLines, padLines, ih, List.length_cons, Nat.add_right_comm n 1,
      List.cons_append]
    rfl

theorem length_padLines (p : Nat → Padding) (n : Nat) (used : List (List UInt8)) :
    (padLines p n used).length = used.length := by
  induction used generalizing n with
  | nil => rfl
  | cons bytes used ih => rw [padLines, List.length_cons, List.length_cons, ih]

/-- Lines that are all padded alike. -/
theorem padLines_eq_map (h : ∀ m, n < m → m ≤ n + used.length → p m = q) :
    padLines p n used = used.map q.line := by
  induction used generalizing n with
  | nil => rfl
  | cons bytes used ih =>
    rw [List.length_cons] at h
    rw [padLines, h (n + 1) (by omega) (by omega), ih fun m hm hm' => h m (by omega) (by omega)]
    rfl

/-- A padded line is a line. -/
theorem newline_not_mem_line (q : Padding) (h : Stream.newline ∉ bytes) :
    Stream.newline ∉ q.line bytes := by
  have hencode {s : List Char} (hs : '\n' ∉ s) : Stream.newline ∉ Utf8.encode s :=
    mt (Utf8.mem_encode_ascii (a := '\n') (by decide)).1 hs
  obtain ⟨hb, ha⟩ := not_or.1 (mt List.mem_append.2 q.newline_not_mem)
  simp only [line, List.mem_append, not_or]
  exact ⟨⟨hencode hb, h⟩, hencode ha⟩

theorem newline_not_mem_padLines (h : ∀ bytes ∈ used, Stream.newline ∉ bytes) :
    ∀ bytes ∈ padLines p n used, Stream.newline ∉ bytes := by
  induction used generalizing n with
  | nil => exact nofun
  | cons bytes used ih =>
    obtain ⟨hb, hu⟩ := List.forall_mem_cons.1 h
    exact List.forall_mem_cons.2 ⟨newline_not_mem_line _ hb, ih hu⟩

/-! ## Single lines -/

/-- A padded line is text between the blanks, or no text because the line is none. -/
theorem decode_line (q : Padding) (bytes : List UInt8) :
    (∃ s, Utf8.decode bytes = .ok s ∧
      Utf8.decode (q.line bytes) = .ok (q.before ++ s ++ q.after)) ∨
    ∃ fault fault', Utf8.decode bytes = .error fault ∧
      Utf8.decode (q.line bytes) = .error fault' := by
  cases h : Utf8.decode bytes with
  | ok s =>
    refine .inl ⟨s, rfl, ?_⟩
    exact Utf8.decode_eq_ok_iff.2 (Utf8.encode_between_eq_iff.2 ⟨s, Utf8.decode_eq_ok_iff.1 h, rfl⟩)
  | error fault =>
    cases h' : Utf8.decode (q.line bytes) with
    | error fault' => exact .inr ⟨fault, fault', rfl, rfl⟩
    | ok t =>
      obtain ⟨s, hs, -⟩ := Utf8.encode_between_eq_iff.1 (Utf8.decode_eq_ok_iff.1 h')
      rw [Utf8.decode_eq_ok_iff.2 hs] at h
      cases h

/-- Every command looks at the words of its argument line or trims it. -/
theorem read_line {k : Keyword} {read : ProfileTable → List Char → Except ArgumentFault Operation}
    (hk : k.command = .withArguments read) (q : Padding) (profiles : ProfileTable)
    (s : List Char) : read profiles (q.before ++ s ++ q.after) = read profiles s := by
  have hwords := Text.words_between q.isBlank_before q.isBlank_after s
  have htrim := Text.trim_between q.isBlank_before q.isBlank_after s
  cases k <;> cases hk <;>
    simp only [Arguments.plain, Arguments.shape, Arguments.save, hwords, htrim]

end Padding

namespace Reader

open Padding

variable {profiles : ProfileTable} {n : Nat} {used : List (List UInt8)} {o : Outcome}

/-- A padded line between commands is what the line is. -/
theorem heading_line (q : Padding) (bytes : List UInt8) :
    heading (q.line bytes) = heading bytes := by
  rw [heading, heading]
  rcases q.decode_line bytes with ⟨s, hs, hs'⟩ | ⟨fault, fault', hf, hf'⟩
  · rw [hs, hs']
    dsimp only
    rw [Text.trim_between q.isBlank_before q.isBlank_after]
  · rw [hf, hf']

/-- A command makes the same of a padded argument line. -/
theorem argumentItem_line {k : Keyword}
    {read : ProfileTable → List Char → Except ArgumentFault Operation}
    (hk : k.command = .withArguments read) (q : Padding) (profiles : ProfileTable) (n : Nat)
    (bytes : List UInt8) :
    argumentItem k read profiles n (q.line bytes) = argumentItem k read profiles n bytes := by
  rw [argumentItem, argumentItem]
  rcases q.decode_line bytes with ⟨s, hs, hs'⟩ | ⟨fault, fault', hf, hf'⟩
  · rw [hs, hs']
    dsimp only
    rw [read_line hk]
  · rw [hf, hf']

/-! ## Readers -/

/-- An item takes padded lines as it takes the lines. -/
theorem Takes.pad (h : Takes profiles n used o) (p : Nat → Padding) :
    Takes profiles n (padLines p n used) o := by
  induction h with
  | ended => exact .ended
  | passedOver hl _ ih => exact .passedOver ((heading_line ..).trans hl) ih
  | undecodable hl => exact .undecodable ((heading_line ..).trans hl)
  | unknown hl => exact .unknown ((heading_line ..).trans hl)
  | quit hl hk => exact .quit ((heading_line ..).trans hl) hk
  | alone hl hk => exact .alone ((heading_line ..).trans hl) hk
  | owing hl hk => exact .owing ((heading_line ..).trans hl) hk
  | @withArguments line k n args read hl hk =>
    rw [← argumentItem_line hk (p (n + 1 + 1))]
    exact .withArguments ((heading_line ..).trans hl) hk

/-- The reader with blanks around the lines that are still to come. -/
def pad (p : Nat → Padding) (r : Reader) : Reader :=
  { r with lines := padLines p r.lineNumber r.lines }

/-- What comes of lines leaves the lines behind them padded. -/
theorem Outcome.result_pad (o : Outcome) (p : Nat → Padding) (failure : Option String) (n : Nat)
    (profiles : ProfileTable) (rest : List (List UInt8)) :
    o.result failure n profiles (padLines p n rest) =
      ((o.result failure n profiles rest).1, (o.result failure n profiles rest).2.pad p) := by
  cases o with
  | item | quit => rfl
  | ended | owing => cases failure <;> rfl

/-- A reader of padded lines yields the same item, and what is left is padded. -/
theorem next_pad (p : Nat → Padding) (r : Reader) :
    (r.pad p).next = (r.next.1, r.next.2.pad p) := by
  cases hf : r.finished with
  | true =>
    have hpad : (r.pad p).finished = true := hf
    rw [next_of_finished hf, next_of_finished hpad]
  | false =>
    obtain ⟨used, rest, o, hl, ht, hr, hn⟩ := next_takes hf
    have hopen : o.isOpen = true → padLines p (r.lineNumber + used.length) rest = [] := fun ho => by
      rw [hr ho]
      rfl
    have hpad : (r.pad p).lines = padLines p r.lineNumber used ++
        padLines p (r.lineNumber + used.length) rest := by
      rw [← padLines_append, ← hl]
      rfl
    rw [hn, ← o.result_pad, next, if_neg (by rw [pad, hf]; exact Bool.false_ne_true), hpad]
    refine ((ht.pad p).nextItem r.failure _ hopen).trans ?_
    rw [length_padLines]

/-- A reader of padded lines goes step by step with the reader of the lines. -/
theorem steps_pad (p : Nat → Padding) (r : Reader) :
    (r.pad p).steps = (r.steps.1.map fun (item, r') => (item, r'.pad p), r.steps.2.pad p) := by
  induction r using induction_next with
  | stop r last hn =>
    have hpad : (r.pad p).next = (none, last.pad p) := by rw [next_pad, hn]
    rw [steps_of_none hn, steps_of_none hpad]
    rfl
  | step r item r' hn ih =>
    have hpad : (r.pad p).next = (some item, r'.pad p) := by rw [next_pad, hn]
    rw [steps_of_some hn, steps_of_some hpad, ih]
    rfl

end Reader

namespace Stream

open Padding

variable {line rest : List UInt8}

/-- The stream with blanks around its lines, the bytes behind the last newline included. -/
def pad (p : Nat → Padding) (s : Stream) : Stream :=
  let (complete, rest) := completeLines s.bytes
  { s with bytes := join (padLines p 0 complete) ++
      if rest.isEmpty then [] else (p (complete.length + 1)).line rest }

/-- The bytes with a carriage return before each newline. -/
def crlf (bytes : List UInt8) : List UInt8 :=
  bytes.flatMap fun b => if b = newline then [13, newline] else [b]

/-- The lines of a padded stream are the padded lines. -/
theorem lines_pad (p : Nat → Padding) (s : Stream) :
    (s.pad p).lines = padLines p 0 s.lines := by
  obtain ⟨hl, hr⟩ := newline_not_mem_completeLines s.bytes
  rw [lines, lines, pad]
  generalize completeLines s.bytes = parts at hl hr
  obtain ⟨complete, rest⟩ := parts
  dsimp only at hl hr ⊢
  cases he : rest.isEmpty with
  | true =>
    rw [if_pos rfl, completeLines_join_append (newline_not_mem_padLines hl) List.not_mem_nil]
    rfl
  | false =>
    have hne : ((p (complete.length + 1)).line rest).isEmpty = false := by
      have hrest : rest ≠ [] := by simpa using he
      simp [line, hrest]
    rw [if_neg Bool.false_ne_true,
      completeLines_join_append (newline_not_mem_padLines hl) (newline_not_mem_line _ hr)]
    dsimp only
    rw [hne]
    cases s.failure with
    | some reason => rfl
    | none =>
      rw [if_neg (by decide), if_neg (by decide), padLines_append, Nat.zero_add]
      rfl

/-- A line ends with a carriage return and its newline. -/
theorem crlf_line (h : newline ∉ line) (bytes : List UInt8) :
    crlf (line ++ newline :: bytes) = carriageReturn.line line ++ newline :: crlf bytes := by
  induction line with
  | nil => rfl
  | cons b line ih =>
    obtain ⟨hb, hl⟩ := List.ne_and_not_mem_of_not_mem_cons h
    rw [crlf, List.cons_append, List.flatMap_cons, if_neg (Ne.symm hb), ← crlf, ih hl]
    rfl

/-- Bytes without a newline stay as they are. -/
theorem crlf_of_not_mem (h : newline ∉ rest) : crlf rest = rest := by
  induction rest with
  | nil => rfl
  | cons b rest ih =>
    obtain ⟨hb, hr⟩ := List.ne_and_not_mem_of_not_mem_cons h
    rw [crlf, List.flatMap_cons, if_neg (Ne.symm hb), ← crlf, ih hr]
    rfl

theorem crlf_join_append {ls : List (List UInt8)} (hl : ∀ line ∈ ls, newline ∉ line)
    (hr : newline ∉ rest) : crlf (join ls ++ rest) = join (ls.map carriageReturn.line) ++ rest := by
  induction ls with
  | nil => exact crlf_of_not_mem hr
  | cons line ls ih =>
    obtain ⟨hline, hls⟩ := List.forall_mem_cons.1 hl
    rw [join_cons, List.append_assoc, List.cons_append, crlf_line hline, ih hls, List.map_cons,
      join_cons, List.append_assoc]
    rfl

/-- Carriage returns before the newlines are blanks behind the lines that end with one. -/
theorem crlf_eq_pad (s : Stream) :
    { s with bytes := crlf s.bytes } =
      s.pad fun n => if n ≤ (completeLines s.bytes).1.length then carriageReturn else nothing := by
  obtain ⟨hl, hr⟩ := newline_not_mem_completeLines s.bytes
  have hcrlf := (congrArg crlf (join_completeLines s.bytes)).symm.trans (crlf_join_append hl hr)
  rw [hcrlf, pad]
  generalize completeLines s.bytes = parts
  obtain ⟨complete, rest⟩ := parts
  dsimp only
  rw [padLines_eq_map fun m _ hm => if_pos (Nat.zero_add complete.length ▸ hm),
    if_neg (Nat.not_succ_le_self _)]
  congr 2
  cases rest with
  | nil => rfl
  | cons b rest => exact (List.append_nil _).symm

end Stream

namespace Reader

/-- Two readers yield the same items, and behind each of them they have come to the same line and
know the same names. -/
structure ReadsAlike (r r' : Reader) : Prop where
  steps : r'.steps.1.map (fun (item, r) => (item, r.lineNumber, r.profiles)) =
    r.steps.1.map fun (item, r) => (item, r.lineNumber, r.profiles)
  lineNumber : r'.steps.2.lineNumber = r.steps.2.lineNumber
  profiles : r'.steps.2.profiles = r.steps.2.profiles
  finished : r'.steps.2.finished = r.steps.2.finished

/-- A reader of a padded stream is that of the stream with its lines padded. -/
theorem ofStream_pad (p : Nat → Padding) (s : Stream) :
    ofStream (s.pad p) = (ofStream s).pad p := by
  rw [ofStream, Stream.lines_pad]
  rfl

/-- A reader of padded lines reads like that of the lines. -/
theorem readsAlike_pad (p : Nat → Padding) (r : Reader) : ReadsAlike r (r.pad p) := by
  have h := r.steps_pad p
  refine ⟨?_, ?_, ?_, ?_⟩
  · rw [h, List.map_map]
    rfl
  all_goals
    rw [h]
    rfl

/-- Blanks around the lines of a script never matter, and neither do carriage returns before its
newlines. -/
theorem blanks_around_lines_never_matter (s : Stream) :
    (∀ p : Nat → Padding, ReadsAlike (ofStream s) (ofStream (s.pad p))) ∧
      ReadsAlike (ofStream s) (ofStream { s with bytes := Stream.crlf s.bytes }) := by
  have hpad (p : Nat → Padding) : ReadsAlike (ofStream s) (ofStream (s.pad p)) := by
    rw [ofStream_pad]
    exact readsAlike_pad p (ofStream s)
  refine ⟨hpad, ?_⟩
  rw [Stream.crlf_eq_pad]
  exact hpad _

/-- A file name keeps the blanks inside of it and loses the carriage return. -/
example :
    let script := Utf8.encode "save\n my scene.png\nmove\n1 2 3".toList
    (ScriptContents.ofStream ⟨Stream.crlf script, none⟩).operations =
      [.save "my scene.png", .move ⟨1, 2, 3⟩] := by decide +kernel

end Reader

end SceneScript
