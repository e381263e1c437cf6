import SceneScript.Proofs.Pixmap.Tokens
import SceneScript.Proofs.Script.Lines

/-!
# Pixmaps read back

A reader of either form of pixmap gets the picture that was written, whatever its size
(`readRaw_raw`, `readPlain_plain`). Both forms start with the same four tokens (`size?`). Behind
them the raw form has the channels as they are, so the reader has to stop right behind the white
space that ends the header: a pixel may look like white space or like a digit. The plain form has a
token for every channel, and a line for every row behind the header (`plain_eq_append`).
-/

namespace SceneScript

/-! ## Rows -/

namespace Picture

variable {width n : Nat} {ps row : List Color}

/-- Pixels are split into as many rows as asked for. -/
theorem length_rowsOf (width n : Nat) (ps : List Color) : (rowsOf width n ps).length = n := by
  induction n generalizing ps with
  | zero => rfl
  | succ n ih => rw [rowsOf, List.length_cons, ih]

/-- Pixels that are as many as the rows have room for are those of the rows, one after the other. -/
theorem flatten_rowsOf (h : ps.length = n * width) : (rowsOf width n ps).flatten = ps := by
  induction n generalizing ps with
  | zero =>
    rw [Nat.zero_mul, List.length_eq_zero_iff] at h
    rw [h, rowsOf, List.flatten_nil]
  | succ n ih =>
    have hrest : (ps.drop width).length = n * width := by
      rw [List.length_drop, h, Nat.succ_mul, Nat.add_sub_cancel]
    rw [rowsOf, List.flatten_cons, ih hrest, List.take_append_drop]

/-- Pixels that are as many as the rows have room for fill each row. -/
theorem length_of_mem_rowsOf (h : ps.length = n * width) (hrow : row ∈ rowsOf width n ps) :
    row.length = width := by
  induction n generalizing ps with
  | zero => cases hrow
  | succ n ih =>
    have hlength : ps.length = n * width + width := by rw [h, Nat.succ_mul]
    rcases List.mem_cons.1 hrow with rfl | hrow
    · rw [List.length_take]
      omega
    · refine ih ?_ hrow
      rw [List.length_drop]
      omega

end Picture

namespace Pixmap

open SceneScript.Stream (newline join completeLines)

/-! ## Reading -/

/-- The channel that a token stands for, unless it is past the largest value. -/
def channel? (token : List UInt8) : Option UInt8 :=
  (number? token).bind fun n => if n ≤ Color.maximum.toNat then some (UInt8.ofNat n) else none

/-- The pixels of channels, three to a pixel, unless some are left over. -/
def colors? : List UInt8 → Option (List Color)
  | [] => some []
  | red :: green :: blue :: channels => (colors? channels).map (⟨red, green, blue⟩ :: ·)
  | _ => none

/-- The picture of the given size and channels, if there are as many as the size asks for. -/
def ofChannels? (width height : Nat) (channels : List UInt8) : Option Picture :=
  (colors? channels).bind fun pixels =>
    if pixels.length = width * height then some ⟨width, height, pixels⟩ else none

/-- The width and the height by the tokens of a header: the magic word, the two of them, and the
largest value of a channel, which is that of a byte. -/
def size? (magic : List Char) (word width height largest : List UInt8) : Option (Nat × Nat) :=
  if word = bytesOfText magic ∧ number? largest = some Color.maximum.toNat then do
    return (← number? width, ← number? height)
  else none

/-- The picture of a file in the raw form: the header, one byte of white space, and three bytes for
each pixel up to the end. -/
def readRaw (bytes : List UInt8) : Option Picture := do
  let (word, bytes) ← takeToken bytes
  let (width, bytes) ← takeToken bytes
  let (height, bytes) ← takeToken bytes
  let (largest, bytes) ← takeToken bytes
  let (width, height) ← size? ['P', '6'] word width height largest
  ofChannels? width height bytes

/-- The picture of a file in the plain form: tokens, and nothing but white space between them. -/
def readPlain (bytes : List UInt8) : Option Picture :=
  match tokens bytes with
  | word :: width :: height :: largest :: channels => do
    let (width, height) ← size? ['P', '3'] word width height largest
    ofChannels? width height (← channels.mapM channel?)
  | _ => none

/-- The pixels on a line of the plain form. -/
def lineColors? (line : List UInt8) : Option (List Color) :=
  ((tokens line).mapM channel?).bind colors?

variable {p : Picture}

/-! ## Channels and sizes -/

/-- The pixels of the channels of pixels are these pixels. -/
theorem colors?_toList (pixels : List Color) :
    colors? (pixels.flatMap Color.toList) = some pixels := by
  induction pixels with
  | nil => rfl
  | cons color pixels ih =>
    rw [List.flatMap_cons]
    change (colors? (pixels.flatMap Color.toList)).map _ = _
    rw [ih]
    rfl

/-- A picture is the one of its size and its channels. -/
theorem ofChannels?_pixels (hp : p.pixels.length = p.width * p.height) :
    ofChannels? p.width p.height (p.pixels.flatMap Color.toList) = some p := by
  rw [ofChannels?, colors?_toList, Option.bind_some, if_pos hp]

/-- The tokens of a header tell the size that they were written for. -/
theorem size?_digits (magic : List Char) (width height : Nat) :
    size? magic (bytesOfText magic) (digitBytes width) (digitBytes height)
      (digitBytes Color.maximum.toNat) = some (width, height) := by
  rw [size?, number?_digits, number?_digits, number?_digits, if_pos ⟨rfl, rfl⟩]
  rfl

/-- The end of a line is white space. -/
theorem isSpace_newline : isSpace newline = true := rfl

/-- A blank is white space. -/
theorem isSpace_blank : isSpace 32 = true := rfl

/-- A magic word is a token. -/
theorem isToken_magic {kind : Char} (h : isSpace kind.toUInt8 = false) :
    IsToken (bytesOfText ['P', kind]) := by
  refine ⟨List.cons_ne_nil _ _, ?_⟩
  intro b hb
  rcases List.mem_cons.1 hb with rfl | hb
  · rfl
  · rw [List.mem_singleton.1 hb]
    exact h

/-- The token of a channel stands for it. -/
theorem channel?_digits (c : UInt8) : channel? (digitBytes c.toNat) = some c := by
  have hc : c.toNat ≤ Color.maximum.toNat := Nat.le_of_lt_succ c.toNat_lt
  rw [channel?, number?_digits, Option.bind_some, if_pos hc, UInt8.ofNat_toNat]

/-- The tokens of channels stand for these channels. -/
theorem mapM_channel?_digits (cs : List UInt8) :
    (cs.map fun c => digitBytes c.toNat).mapM channel? = some cs := by
  induction cs with
  | nil => rfl
  | cons c cs ih => simp [channel?_digits, ih]

/-! ## The raw form -/

/-- The header is four tokens, each with a byte of white space behind it. -/
theorem bytesOfText_header (magic : List Char) (p : Picture) :
    bytesOfText (header magic p) =
      bytesOfText magic ++ newline :: (digitBytes p.width ++ 32 :: (digitBytes p.height ++
        newline :: (digitBytes Color.maximum.toNat ++ [newline]))) := by
  simp only [header, bytesOfText, digitBytes, List.map_append, List.map_cons, List.append_assoc,
    List.cons_append]
  rfl

/-- A picture in the raw form is read as it was. -/
theorem readRaw_raw (hp : p.pixels.length = p.width * p.height) : readRaw (raw p) = some p := by
  have hword : IsToken (bytesOfText ['P', '6']) := isToken_magic rfl
  simp only [readRaw, raw, bytesOfText_header, List.append_assoc, List.cons_append, List.nil_append,
    takeToken_append hword isSpace_newline, takeToken_append (isToken_digits _) isSpace_newline,
    takeToken_append (isToken_digits _) isSpace_blank, Option.bind_eq_bind, Option.bind_some,
    size?_digits]
  exact ofChannels?_pixels hp

/-! ## The plain form -/

/-- The line of a row without its end. -/
def rowLine (row : List Color) : List UInt8 :=
  (row.flatMap Color.toList).flatMap fun c => digitBytes c.toNat ++ [32]

/-- The lines of the plain form behind its header. -/
def bodyLines (p : Picture) : List (List UInt8) :=
  if p.width = 0 then [] else p.rows.map rowLine

/-- The text of a row is its line and the end of it. -/
theorem bytesOfText_rowText (row : List Color) :
    bytesOfText (rowText row) = rowLine row ++ [newline] := by
  simp only [bytesOfText, rowText, channelText, List.map_append, List.map_flatMap]
  rfl

/-- The plain form is its header and its lines. -/
theorem plain_eq_append (p : Picture) :
    plain p = bytesOfText (header ['P', '3'] p) ++ join (bodyLines p) := by
  rw [plain, plainText, bytesOfText, List.map_append, bodyLines]
  split
  · rfl
  · congr 1
    rw [List.map_flatMap, join, List.flatMap_map]
    simp only [← bytesOfText_rowText]
    rfl

/-- The tokens of lines are those of each. -/
theorem tokens_join (lines : List (List UInt8)) : tokens (join lines) = lines.flatMap tokens := by
  induction lines with
  | nil => simp
  | cons line lines ih =>
    rw [Stream.join_cons, tokens_append_space isSpace_newline, ih, List.flatMap_cons]

/-- The tokens of spelled channels are one for each. -/
theorem tokens_channels (cs : List UInt8) :
    tokens (cs.flatMap fun c => digitBytes c.toNat ++ [32]) =
      cs.map fun c => digitBytes c.toNat := by
  induction cs with
  | nil => simp
  | cons c cs ih =>
    rw [List.flatMap_cons, List.append_assoc, List.singleton_append,
      tokens_append_space isSpace_blank, ih, (isToken_digits _).tokens_eq]
    rfl

/-- The pixels on the line of a row are the row. -/
theorem lineColors?_rowLine (row : List Color) : lineColors? (rowLine row) = some row := by
  rw [lineColors?, rowLine, tokens_channels, mapM_channel?_digits, Option.bind_some,
    colors?_toList]

/-- A row is on one line. -/
theorem newline_not_mem_rowLine (row : List Color) : newline ∉ rowLine row := by
  intro h
  obtain ⟨c, -, h⟩ := List.mem_flatMap.1 h
  rcases List.mem_append.1 h with h | h
  · cases (isToken_digits _).2 _ h
  · cases List.mem_singleton.1 h

/-- The tokens behind the header are the channels of the pixels. -/
theorem tokens_body (hp : p.pixels.length = p.width * p.height) :
    tokens (join (bodyLines p)) =
      (p.pixels.flatMap Color.toList).map fun c => digitBytes c.toNat := by
  rw [tokens_join, bodyLines]
  split
  next hwidth =>
    rw [hwidth, Nat.zero_mul, List.length_eq_zero_iff] at hp
    rw [hp]
    rfl
  next =>
    have hrows : p.rows.flatten = p.pixels :=
      Picture.flatten_rowsOf (by rw [hp, Nat.mul_comm])
    rw [List.flatMap_map, ← hrows, ← List.flatMap_id, List.flatMap_assoc, List.map_flatMap]
    simp only [rowLine, tokens_channels, id]

/-- The tokens of the plain form are those of the header and the channels of the pixels. -/
theorem tokens_plain (hp : p.pixels.length = p.width * p.height) :
    tokens (plain p) =
      bytesOfText ['P', '3'] :: digitBytes p.width :: digitBytes p.height ::
        digitBytes Color.maximum.toNat ::
          (p.pixels.flatMap Color.toList).map fun c => digitBytes c.toNat := by
  have hword : IsToken (bytesOfText ['P', '3']) := isToken_magic rfl
  simp only [plain_eq_append, bytesOfText_header, List.append_assoc, List.cons_append,
    List.nil_append, tokens_append_space isSpace_newline, tokens_append_space isSpace_blank,
    hword.tokens_eq, (isToken_digits _).tokens_eq, tokens_body hp]

/-- A picture in the plain form is read as it was. -/
theorem readPlain_plain (hp : p.pixels.length = p.width * p.height) :
    readPlain (plain p) = some p := by
  rw [readPlain, tokens_plain hp]
  dsimp only
  rw [size?_digits, mapM_channel?_digits]
  exact ofChannels?_pixels hp

/-! ## Framebuffers -/

/-- Both forms of what a framebuffer shows are read as its size and its colors in display order.
Unless the width is zero, the lines behind the header of the plain form are as many as the rows, and
each has as many pixels as a row is wide. -/
theorem pixmaps_lossless (fb : Framebuffer) :
    readRaw (raw fb.picture) = some ⟨fb.width, fb.height, fb.cells.toList.map Cell.color⟩ ∧
    readPlain (plain fb.picture) = some ⟨fb.width, fb.height, fb.cells.toList.map Cell.color⟩ ∧
    (fb.width ≠ 0 → ∃ body rows,
      plain fb.picture = bytesOfText (header ['P', '3'] fb.picture) ++ body ∧
      completeLines body = (rows, []) ∧ rows.length = fb.height ∧
      ∀ line ∈ rows, ∃ row, lineColors? line = some row ∧ row.length = fb.width) := by
  have hp : fb.picture.pixels.length = fb.picture.width * fb.picture.height := by
    simp [Framebuffer.picture]
  refine ⟨readRaw_raw hp, readPlain_plain hp, fun hwidth => ?_⟩
  have hlines : bodyLines fb.picture = fb.picture.rows.map rowLine := if_neg hwidth
  have hnewline : ∀ line ∈ fb.picture.rows.map rowLine, newline ∉ line := by
    simp only [List.forall_mem_map]
    exact fun row _ => newline_not_mem_rowLine row
  refine ⟨_, fb.picture.rows.map rowLine, plain_eq_append _, ?_, ?_, ?_⟩
  · rw [hlines, ← List.append_nil (join _)]
    exact Stream.completeLines_join_append hnewline List.not_mem_nil
  · rw [List.length_map]
    exact Picture.length_rowsOf _ _ _
  · simp only [List.forall_mem_map]
    intro row hrow
    refine ⟨row, lineColors?_rowLine row, ?_⟩
    exact Picture.length_of_mem_rowsOf (by rw [hp, Nat.mul_comm]; rfl) hrow

/-- Two pixels whose channels look like the end of a line, a blank and a digit, are read behind both
headers, and stand on one line. -/
theorem pixmaps_lossless_blanks :
    readRaw (raw (Framebuffer.new 2 1 ⟨10, 32, 48⟩).picture) =
      some ⟨2, 1, [⟨10, 32, 48⟩, ⟨10, 32, 48⟩]⟩ ∧
    readPlain (plain (Framebuffer.new 2 1 ⟨10, 32, 48⟩).picture) =
      some ⟨2, 1, [⟨10, 32, 48⟩, ⟨10, 32, 48⟩]⟩ ∧
    ∃ body rows,
      plain (Framebuffer.new 2 1 ⟨10, 32, 48⟩).picture =
        bytesOfText (header ['P', '3'] (Framebuffer.new 2 1 ⟨10, 32, 48⟩).picture) ++ body ∧
      completeLines body = (rows, []) ∧ rows.length = 1 ∧
      ∀ line ∈ rows, ∃ row, lineColors? line = some row ∧ row.length = 2 := by
  have hwidth : (Framebuffer.new 2 1 ⟨10, 32, 48⟩).width ≠ 0 := Nat.succ_ne_zero 1
  obtain ⟨hraw, hplain, hlines⟩ := pixmaps_lossless (Framebuffer.new 2 1 ⟨10, 32, 48⟩)
  exact ⟨hraw, hplain, hlines hwidth⟩

end Pixmap

end SceneScript
