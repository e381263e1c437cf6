import SceneScript.Text.Utf8

/-!
# Text through UTF-8

Writing a text as bytes and reading the bytes gives the text back (`decode_encode`). A character is
read by the sequence that its first byte opens (`start?_two`, `start?_three`, `start?_four`) and by
the six bits that each further byte adds (`decodeFrom_continuation`), so a text may be followed by
anything when it is read (`decodeFrom_encode_append`).

Bytes below 128 belong to ASCII characters alone, so a text holds such a byte exactly when it holds
the character (`mem_encode_ascii`). That is why a zero byte or a newline never shows up inside of
another character.
-/

namespace SceneScript.Utf8

/-! ## First bytes -/

/-- The first byte of a character of two bytes. -/
theorem start?_two : ∀ n < 32, 2 ≤ n →
    Sequence.start? (UInt8.ofNat (n + 0xc0)) = some ⟨n, 1, 1, 0x80, 0xbf⟩ := by decide

/-- The first byte of a character of three bytes. -/
theorem start?_three : ∀ n < 16, Sequence.start? (UInt8.ofNat (n + 0xe0)) =
    some ⟨n, 1, 2, if n = 0 then 0xa0 else 0x80, if n = 13 then 0x9f else 0xbf⟩ := by decide

/-- The first byte of a character of four bytes. -/
theorem start?_four : ∀ n < 5, Sequence.start? (UInt8.ofNat (n + 0xf0)) =
    some ⟨n, 1, 3, if n = 0 then 0x90 else 0x80, if n = 4 then 0x8f else 0xbf⟩ := by decide

/-! ## Reading one character -/

variable {i n m bits seen owed : Nat} {low high : UInt8} {rest : List UInt8}

/-- A byte that opens a sequence is read into it. -/
theorem decodeFrom_start {q : Sequence} (hn : 128 ≤ n) (hn' : n < 256)
    (h : Sequence.start? (UInt8.ofNat n) = some q) :
    decodeFrom i none (UInt8.ofNat n :: rest) = decodeFrom (i + 1) (some q) rest := by
  have hb : ¬ UInt8.ofNat n < 0x80 := by
    rw [UInt8.lt_iff_toNat_lt, UInt8.toNat_ofNat_of_lt' hn']
    exact Nat.not_lt.2 hn
  rw [decodeFrom, if_neg hb, h]

/-- A further byte in range adds its six bits, and the last one owed ends the character. -/
theorem decodeFrom_continuation (hm : m < 64) (hl : low.toNat ≤ m + 0x80)
    (hh : m + 0x80 ≤ high.toNat) :
    decodeFrom i (some ⟨bits, seen, owed, low, high⟩) (UInt8.ofNat (m + 0x80) :: rest) =
      if owed ≤ 1 then (Char.ofNat (bits * 64 + m) :: ·) <$> decodeFrom (i + 1) none rest
      else decodeFrom (i + 1) (some ⟨bits * 64 + m, seen + 1, owed - 1, 0x80, 0xbf⟩) rest := by
  have hb : (UInt8.ofNat (m + 0x80)).toNat = m + 0x80 := UInt8.toNat_ofNat_of_lt' (by
    change m + 128 < 256
    omega)
  have hr : (decide (low ≤ UInt8.ofNat (m + 0x80)) && decide (UInt8.ofNat (m + 0x80) ≤ high)) =
      true := by
    simp only [Bool.and_eq_true, decide_eq_true_eq, UInt8.le_iff_toNat_le, hb]
    exact ⟨hl, hh⟩
  rw [decodeFrom]
  simp only [hr, if_true, hb, Nat.add_sub_cancel]

/-- A further byte has the whole range of six bits, except behind some first bytes. -/
theorem decodeFrom_further (hm : m < 64) :
    decodeFrom i (some ⟨bits, seen, owed, 0x80, 0xbf⟩) (UInt8.ofNat (m + 0x80) :: rest) =
      if owed ≤ 1 then (Char.ofNat (bits * 64 + m) :: ·) <$> decodeFrom (i + 1) none rest
      else decodeFrom (i + 1) (some ⟨bits * 64 + m, seen + 1, owed - 1, 0x80, 0xbf⟩) rest :=
  decodeFrom_continuation hm (by simp only [UInt8.reduceToNat]; omega)
    (by simp only [UInt8.reduceToNat]; omega)

/-- A code point of two bytes. -/
theorem decodeFrom_two {v : Nat} (hl : 0x7f < v) (hh : v ≤ 0x7ff) :
    decodeFrom i none
        (UInt8.ofNat (v / 64 % 0x20 + 0xc0) :: UInt8.ofNat (v % 0x40 + 0x80) :: rest) =
      (Char.ofNat v :: ·) <$> decodeFrom (i + 2) none rest := by
  rw [decodeFrom_start (by omega) (by omega) (start?_two _ (by omega) (by omega)),
    decodeFrom_further (by omega), if_pos (by decide),
    show v / 64 % 0x20 * 64 + v % 0x40 = v by omega]

/-- A code point of three bytes that is no surrogate. -/
theorem decodeFrom_three {v : Nat} (hl : 0x7ff < v) (hh : v ≤ 0xffff)
    (hv : v < 0xd800 ∨ 0xdfff < v) :
    decodeFrom i none (UInt8.ofNat (v / 4096 % 0x10 + 0xe0) ::
        UInt8.ofNat (v / 64 % 0x40 + 0x80) :: UInt8.ofNat (v % 0x40 + 0x80) :: rest) =
      (Char.ofNat v :: ·) <$> decodeFrom (i + 3) none rest := by
  rw [decodeFrom_start (by omega) (by omega) (start?_three _ (by omega)),
    decodeFrom_continuation (by omega)
      (by split <;> simp only [UInt8.reduceToNat] <;> omega)
      (by split <;> simp only [UInt8.reduceToNat] <;> omega),
    if_neg (by decide), decodeFrom_further (by omega), if_pos (by decide),
    show (v / 4096 % 0x10 * 64 + v / 64 % 0x40) * 64 + v % 0x40 = v by omega]

/-- A code point of four bytes up to the last. -/
theorem decodeFrom_four {v : Nat} (hl : 0xffff < v) (hh : v < 0x110000) :
    decodeFrom i none (UInt8.ofNat (v / 262144 % 0x08 + 0xf0) ::
        UInt8.ofNat (v / 4096 % 0x40 + 0x80) :: UInt8.ofNat (v / 64 % 0x40 + 0x80) ::
        UInt8.ofNat (v % 0x40 + 0x80) :: rest) =
      (Char.ofNat v :: ·) <$> decodeFrom (i + 4) none rest := by
  rw [decodeFrom_start (by omega) (by omega) (start?_four _ (by omega)),
    decodeFrom_continuation (by omega)
      (by split <;> simp only [UInt8.reduceToNat] <;> omega)
      (by split <;> simp only [UInt8.reduceToNat] <;> omega),
    if_neg (by decide), decodeFrom_further (by omega), if_neg (by decide),
    decodeFrom_further (by omega), if_pos (by decide),
    show ((v / 262144 % 0x08 * 64 + v / 4096 % 0x40) * 64 + v / 64 % 0x40) * 64 + v % 0x40 = v by
      omega]

/-- The bytes of a character are read as that character, whatever follows them. -/
theorem decodeFrom_char (c : Char) (i : Nat) (rest : List UInt8) :
    decodeFrom i none (String.utf8EncodeChar c ++ rest) =
      (c :: ·) <$> decodeFrom (i + (String.utf8EncodeChar c).length) none rest := by
  have hc : Char.ofNat c.val.toNat = c := Char.ofNat_toNat c
  have hv : c.val.toNat < 0xd800 ∨ 0xdfff < c.val.toNat ∧ c.val.toNat < 0x110000 := c.valid
  unfold String.utf8EncodeChar
  dsimp only
  split
  · have hb : UInt8.ofNat c.val.toNat < 0x80 := by
      rw [UInt8.lt_iff_toNat_lt, UInt8.toNat_ofNat_of_lt' (by change _ < 256; omega)]
      change _ < 128
      omega
    rw [List.cons_append, List.nil_append, decodeFrom, if_pos hb,
      UInt8.toNat_ofNat_of_lt' (by change _ < 256; omega), hc]
    rfl
  split
  · exact (decodeFrom_two (by omega) (by omega)).trans (by rw [hc]; rfl)
  split
  · exact (decodeFrom_three (by omega) (by omega) (by omega)).trans (by rw [hc]; rfl)
  · exact (decodeFrom_four (by omega) (by omega)).trans (by rw [hc]; rfl)

/-! ## Reading texts -/

theorem encode_cons (c : Char) (s : List Char) :
    encode (c :: s) = String.utf8EncodeChar c ++ encode s := List.flatMap_cons

/-- The bytes of a text are read as that text, and reading goes on behind them. -/
theorem decodeFrom_encode_append (s : List Char) (i : Nat) (rest : List UInt8) :
    decodeFrom i none (encode s ++ rest) =
      (s ++ ·) <$> decodeFrom (i + (encode s).length) none rest := by
  induction s generalizing i with
  | nil => simp [encode]
  | cons c s ih =>
    rw [encode_cons, List.append_assoc, decodeFrom_char, ih, List.length_append, Nat.add_assoc]
    cases decodeFrom _ none rest <;> rfl

/-- A text comes back from its bytes. -/
@[simp] theorem decode_encode (s : List Char) : decode (encode s) = .ok s := by
  have h := decodeFrom_encode_append s 0 []
  rw [List.append_nil] at h
  rw [decode, h, decodeFrom]
  exact congrArg Except.ok (List.append_nil s)

/-! ## ASCII bytes -/

/-- A character above ASCII has bytes above ASCII only. -/
theorem le_of_mem_utf8EncodeChar {c : Char} (hc : 0x7f < c.val.toNat) :
    ∀ b ∈ String.utf8EncodeChar c, 128 ≤ b.toNat := by
  have hn {n : Nat} (hl : 128 ≤ n) (hh : n < 256) : 128 ≤ (UInt8.ofNat n).toNat := by
    rwa [UInt8.toNat_ofNat_of_lt' hh]
  unfold String.utf8EncodeChar
  dsimp only
  rw [if_neg (by omega)]
  split
  · simp only [List.forall_mem_cons]
    exact ⟨hn (by omega) (by omega), hn (by omega) (by omega), nofun⟩
  split
  · simp only [List.forall_mem_cons]
    exact ⟨hn (by omega) (by omega), hn (by omega) (by omega), hn (by omega) (by omega), nofun⟩
  · simp only [List.forall_mem_cons]
    exact ⟨hn (by omega) (by omega), hn (by omega) (by omega), hn (by omega) (by omega),
      hn (by omega) (by omega), nofun⟩

/-- The byte of an ASCII character stands for that character alone. -/
theorem mem_utf8EncodeChar_ascii {a c : Char} (ha : a.val.toNat < 128) :
    UInt8.ofNat a.val.toNat ∈ String.utf8EncodeChar c ↔ a = c := by
  have hb : (UInt8.ofNat a.val.toNat).toNat = a.val.toNat :=
    UInt8.toNat_ofNat_of_lt' (by change _ < 256; omega)
  by_cases hc : c.val.toNat ≤ 0x7f
  · unfold String.utf8EncodeChar
    dsimp only
    rw [if_pos hc, List.mem_singleton, ← UInt8.toNat_inj, hb,
      UInt8.toNat_ofNat_of_lt' (by change _ < 256; omega), UInt32.toNat_inj, Char.val_inj]
  · refine iff_of_false (fun h => ?_) (fun h => ?_)
    · have := le_of_mem_utf8EncodeChar (Nat.not_le.1 hc) _ h
      omega
    · subst h
      omega

/-- The byte of an ASCII character is among those of a text exactly when the character is in it. -/
theorem mem_encode_ascii {a : Char} (ha : a.val.toNat < 128) {s : List Char} :
    UInt8.ofNat a.val.toNat ∈ encode s ↔ a ∈ s := by
  simp only [encode, List.mem_flatMap, mem_utf8EncodeChar_ascii ha, exists_eq_right']

end SceneScript.Utf8
