import SceneScript.Pixmap
import SceneScript.Proofs.Decimal.Digits

/-!
# Tokens of pixmaps

A pixmap is read by its tokens, the runs of bytes between white space (`tokens`). Where every
number stands for itself all of the file is tokens; where pixels are bytes only the header is, and
its tokens are taken off the front one by one (`takeToken`), each with the one byte of white space
behind it, so that what follows the last one is not looked at.

White space parts tokens (`tokens_append_space`, `takeToken_append`), and the digits of a number are
one token that stands for it (`isToken_digits`, `number?_digits`).
-/

namespace SceneScript

namespace Pixmap

/-- White space of the format: the blank, the tab, and what ends a line or a page. -/
def isSpace (b : UInt8) : Bool := b = 32 || (9 ≤ b && b ≤ 13)

/-- The runs of bytes between white space. -/
def tokens (bytes : List UInt8) : List (List UInt8) :=
  (bytes.splitOnP isSpace).filter (!·.isEmpty)

/-- The token at the front, and what is behind the byte of white space that ends it. White space in
front of it is passed over. -/
def takeToken (bytes : List UInt8) : Option (List UInt8 × List UInt8) :=
  let bytes := bytes.dropWhile isSpace
  match bytes.dropWhile (!isSpace ·) with
  | [] => none
  | _ :: rest => some (bytes.takeWhile (!isSpace ·), rest)

/-- The number that a token of digits stands for. -/
def number? (token : List UInt8) : Option Nat :=
  let ds := token.map Char.ofUInt8
  if !ds.isEmpty && ds.all Decimal.isDigit then some (Decimal.natOfDigits ds) else none

/-- A run of bytes without white space. -/
def IsToken (token : List UInt8) : Prop := token ≠ [] ∧ ∀ b ∈ token, isSpace b = false

/-- A number as a token. -/
def digitBytes (n : Nat) : List UInt8 := bytesOfText (Decimal.digits n)

variable {token rest : List UInt8} {b : UInt8}

/-! ## White space parts tokens -/

@[simp] theorem tokens_nil : tokens [] = [] := by simp [tokens]

/-- White space parts the tokens before it and behind it. -/
theorem tokens_append_space (hb : isSpace b = true) (before rest : List UInt8) :
    tokens (before ++ b :: rest) = tokens before ++ tokens rest := by
  rw [tokens, List.splitOnP_append_cons before rest hb, List.filter_append, tokens, tokens]

/-- A token is one token. -/
theorem IsToken.tokens_eq (h : IsToken token) : tokens token = [token] := by
  rw [tokens, List.splitOnP_eq_singleton h.2]
  simp [h.1]

/-- A token is taken off the front, with the white space that ends it and nothing more. -/
theorem takeToken_append (h : IsToken token) (hb : isSpace b = true) (rest : List UInt8) :
    takeToken (token ++ b :: rest) = some (token, rest) := by
  obtain ⟨hne, hall⟩ := h
  have hall' : ∀ c ∈ token, (!isSpace c) = true := fun c hc => by simp [hall c hc]
  have hfront : (token ++ b :: rest).dropWhile isSpace = token ++ b :: rest := by
    cases token with
    | nil => exact absurd rfl hne
    | cons c token => exact List.dropWhile_cons_of_neg (by simp [hall c List.mem_cons_self])
  have hbehind : (token ++ b :: rest).dropWhile (!isSpace ·) = b :: rest := by
    rw [List.dropWhile_append_of_pos hall', List.dropWhile_cons_of_neg (by simp [hb])]
  have htoken : (token ++ b :: rest).takeWhile (!isSpace ·) = token := by
    rw [List.takeWhile_append_of_pos hall', List.takeWhile_cons_of_neg (by simp [hb]),
      List.append_nil]
  simp only [takeToken, hfront, hbehind, htoken]

/-! ## Numbers as tokens -/

/-- A character that is a byte comes back from it. -/
theorem ofUInt8_toUInt8 {c : Char} (h : c.toNat < 256) : Char.ofUInt8 c.toUInt8 = c := by
  apply Char.toNat_inj.1
  change c.val.toUInt8.toUInt32.toNat = c.val.toNat
  rw [UInt8.toNat_toUInt32, UInt32.toNat_toUInt8]
  exact Nat.mod_eq_of_lt h

/-- The digits of a number are one token. -/
theorem isToken_digits (n : Nat) : IsToken (digitBytes n) := by
  refine ⟨fun h => Decimal.digits_ne_nil n (List.map_eq_nil_iff.1 h), fun b hb => ?_⟩
  obtain ⟨c, hc, rfl⟩ := List.mem_map.1 hb
  obtain ⟨hlow, hhigh⟩ := Decimal.toNat_of_mem_digits hc
  have hbyte : c.toUInt8.toNat = c.toNat := by
    change c.val.toUInt8.toNat = c.val.toNat
    rw [UInt32.toNat_toUInt8]
    exact Nat.mod_eq_of_lt (Nat.lt_of_le_of_lt hhigh (by decide))
  simp only [isSpace, UInt8.le_iff_toNat_le, ← UInt8.toNat_inj, hbyte]
  simp
  omega

/-- The token of a number stands for it. -/
theorem number?_digits (n : Nat) : number? (digitBytes n) = some n := by
  have hchars : (digitBytes n).map Char.ofUInt8 = Decimal.digits n := by
    have hsmall : ∀ c ∈ Decimal.digits n, Char.ofUInt8 c.toUInt8 = c := fun c hc =>
      ofUInt8_toUInt8 (Nat.lt_of_le_of_lt (Decimal.toNat_of_mem_digits hc).2 (by decide))
    rw [digitBytes, bytesOfText, List.map_map]
    exact (List.map_congr_left hsmall).trans (List.map_id _)
  have hdigits : (Decimal.digits n).all Decimal.isDigit = true :=
    List.all_eq_true.2 fun c hc => Decimal.isDigit_of_mem_digits hc
  simp [number?, hchars, hdigits, Decimal.digits_ne_nil, Decimal.natOfDigits_digits]

end Pixmap

end SceneScript
