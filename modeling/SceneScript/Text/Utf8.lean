/-!
# UTF-8

Text goes to bytes by `encode` and comes back by `decode`, which reads one byte at a time and
keeps the sequence it is inside of (`Sequence`). Bytes are refused at the first one that rules
UTF-8 out, and `Fault` tells where the sequence it belongs to starts and how much of it was good.
-/

namespace SceneScript.Utf8

/-- The bytes of a text. -/
def encode (s : List Char) : List UInt8 := s.flatMap String.utf8EncodeChar

/-- Why bytes are no UTF-8. -/
structure Fault where
  /-- The offset of the first byte that belongs to no character. -/
  start : Nat
  /-- The length of the longest run from there that could begin a character, at least one, or
  nothing when the data ends within a run that is good so far. -/
  length : Option Nat
deriving Repr, DecidableEq

namespace Fault

/-- The fault in words. -/
def message (e : Fault) : String :=
  match e.length with
  | some n => s!"invalid utf-8 sequence of {n} bytes from index {e.start}"
  | none => s!"incomplete utf-8 byte sequence from index {e.start}"

end Fault

/-- A character of several bytes, part way through. -/
structure Sequence where
  /-- The bits of the code point read so far. -/
  bits : Nat
  /-- The bytes read so far. -/
  seen : Nat
  /-- The bytes still owed. -/
  owed : Nat
  /-- The least byte the next one may be. -/
  low : UInt8
  /-- The greatest byte the next one may be. -/
  high : UInt8
deriving Repr, DecidableEq

/-- The sequence a first byte above ASCII opens. The narrowed ranges shut out longer forms of
shorter characters, surrogates, and code points past the last. -/
def Sequence.start? (b : UInt8) : Option Sequence :=
  if b < 0xc2 then none
  else if b < 0xe0 then some ⟨b.toNat - 0xc0, 1, 1, 0x80, 0xbf⟩
  else if b == 0xe0 then some ⟨0, 1, 2, 0xa0, 0xbf⟩
  else if b == 0xed then some ⟨0xd, 1, 2, 0x80, 0x9f⟩
  else if b < 0xf0 then some ⟨b.toNat - 0xe0, 1, 2, 0x80, 0xbf⟩
  else if b == 0xf0 then some ⟨0, 1, 3, 0x90, 0xbf⟩
  else if b < 0xf4 then some ⟨b.toNat - 0xf0, 1, 3, 0x80, 0xbf⟩
  else if b == 0xf4 then some ⟨4, 1, 3, 0x80, 0x8f⟩
  else none

/-- The text of the bytes from offset `i` on, where `q` is the sequence that is open there. -/
def decodeFrom (i : Nat) : Option Sequence → List UInt8 → Except Fault (List Char)
  | none, [] => .ok []
  | some q, [] => .error ⟨i - q.seen, none⟩
  | none, b :: rest =>
    if b < 0x80 then (Char.ofNat b.toNat :: ·) <$> decodeFrom (i + 1) none rest
    else match Sequence.start? b with
      | some q => decodeFrom (i + 1) (some q) rest
      | none => .error ⟨i, some 1⟩
  | some q, b :: rest =>
    if q.low ≤ b && b ≤ q.high then
      let bits := q.bits * 64 + (b.toNat - 0x80)
      if q.owed ≤ 1 then (Char.ofNat bits :: ·) <$> decodeFrom (i + 1) none rest
      else decodeFrom (i + 1) (some ⟨bits, q.seen + 1, q.owed - 1, 0x80, 0xbf⟩) rest
    else .error ⟨i - q.seen, some q.seen⟩

/-- The text that the bytes encode. -/
def decode (bytes : List UInt8) : Except Fault (List Char) := decodeFrom 0 none bytes

end SceneScript.Utf8
