import SceneScript.Proofs.Text.Utf8

/-!
# Bytes that are text

Bytes decode exactly when some text encodes to them, and then to that text (`decode_eq_ok_iff`). So
what decoding refuses is no encoding of anything (`exists_decode_eq_error_iff`).

The first character of what decodes is found by its first byte: the byte opens one of three kinds of
sequences (`start?_cases`), and each byte owed adds six bits in the range that the sequence leaves
open (`decodeFrom_open`). What these bits make is a code point that encodes to the bytes read
(`exists_char`).

Where a character starts shows in its first byte alone (`exists_firstByte`). So a text is cut into
texts wherever one stands at either end of it (`encode_between_eq_iff`): what is no text does not
become one by the texts around it.
-/

namespace SceneScript.Utf8

variable {i bits seen owed : Nat} {low high b : UInt8} {bytes rest : List UInt8}
  {s t before after : List Char}

/-! ## Code points -/

/-- A valid code point is that of its character. -/
theorem toNat_val_ofNat {v : Nat} (h : v.isValidChar) : (Char.ofNat v).val.toNat = v := by
  rw [Char.ofNat, dif_pos h]
  rfl

/-- A byte is the number it stands for. -/
theorem eq_ofNat_of_toNat {n : Nat} (h : b.toNat = n) : b = UInt8.ofNat n := by
  rw [← h, UInt8.ofNat_toNat]

/-- A code point of one byte. -/
theorem utf8EncodeChar_one {v : Nat} (h : v < 0x80) :
    String.utf8EncodeChar (Char.ofNat v) = [UInt8.ofNat v] := by
  rw [String.utf8EncodeChar, toNat_val_ofNat (.inl (by omega))]
  exact if_pos (by omega)

/-- A code point of two bytes, by the bits of each. -/
theorem utf8EncodeChar_two {n m : Nat} (hn : 2 ≤ n) (hn' : n < 32) (hm : m < 64) :
    String.utf8EncodeChar (Char.ofNat (n * 64 + m)) =
      [UInt8.ofNat (n + 0xc0), UInt8.ofNat (m + 0x80)] := by
  rw [String.utf8EncodeChar, toNat_val_ofNat (.inl (by omega))]
  rw [if_neg (by omega), if_pos (by omega), show (n * 64 + m) / 64 % 32 = n by omega,
    show (n * 64 + m) % 64 = m by omega]

/-- A code point of three bytes, by the bits of each: it is above those of two bytes and no
surrogate. -/
theorem utf8EncodeChar_three {n m k : Nat} (hn : n < 16) (hm : m < 64) (hk : k < 64)
    (hl : 0x800 ≤ (n * 64 + m) * 64 + k) (hs : n ≠ 13 ∨ m < 32) :
    String.utf8EncodeChar (Char.ofNat ((n * 64 + m) * 64 + k)) =
      [UInt8.ofNat (n + 0xe0), UInt8.ofNat (m + 0x80), UInt8.ofNat (k + 0x80)] := by
  have hv : ((n * 64 + m) * 64 + k).isValidChar := by
    unfold Nat.isValidChar
    omega
  rw [String.utf8EncodeChar, toNat_val_ofNat hv]
  rw [if_neg (by omega), if_neg (by omega), if_pos (by omega),
    show ((n * 64 + m) * 64 + k) / 4096 % 16 = n by omega,
    show ((n * 64 + m) * 64 + k) / 64 % 64 = m by omega,
    show ((n * 64 + m) * 64 + k) % 64 = k by omega]

/-- A code point of four bytes, by the bits of each: it is above those of three bytes and not past
the last. -/
theorem utf8EncodeChar_four {n m k l : Nat} (hm : m < 64) (hk : k < 64) (hl : l < 64)
    (h : 0x10000 ≤ ((n * 64 + m) * 64 + k) * 64 + l)
    (h' : ((n * 64 + m) * 64 + k) * 64 + l < 0x110000) :
    String.utf8EncodeChar (Char.ofNat (((n * 64 + m) * 64 + k) * 64 + l)) =
      [UInt8.ofNat (n + 0xf0), UInt8.ofNat (m + 0x80), UInt8.ofNat (k + 0x80),
        UInt8.ofNat (l + 0x80)] := by
  rw [String.utf8EncodeChar, toNat_val_ofNat (.inr ⟨by omega, h'⟩)]
  rw [if_neg (by omega), if_neg (by omega), if_neg (by omega),
    show (((n * 64 + m) * 64 + k) * 64 + l) / 262144 % 8 = n by omega,
    show (((n * 64 + m) * 64 + k) * 64 + l) / 4096 % 64 = m by omega,
    show (((n * 64 + m) * 64 + k) * 64 + l) / 64 % 64 = k by omega,
    show (((n * 64 + m) * 64 + k) * 64 + l) % 64 = l by omega]

/-! ## What decodes -/

/-- No sequence starts with a further byte, with one that only longer forms start with, or with one
that leads past the last code point. -/
theorem start?_eq_none : ∀ n < 256, n < 0xc2 ∨ 0xf4 < n →
    Sequence.start? (UInt8.ofNat n) = none := by decide +kernel

/-- A byte that opens a sequence opens one of two, three or four bytes. -/
theorem start?_cases {q : Sequence} (h : Sequence.start? b = some q) :
    (∃ n, 2 ≤ n ∧ n < 32 ∧ b = UInt8.ofNat (n + 0xc0) ∧ q = ⟨n, 1, 1, 0x80, 0xbf⟩) ∨
      (∃ n, n < 16 ∧ b = UInt8.ofNat (n + 0xe0) ∧
        q = ⟨n, 1, 2, if n = 0 then 0xa0 else 0x80, if n = 13 then 0x9f else 0xbf⟩) ∨
      ∃ n, n < 5 ∧ b = UInt8.ofNat (n + 0xf0) ∧
        q = ⟨n, 1, 3, if n = 0 then 0x90 else 0x80, if n = 4 then 0x8f else 0xbf⟩ := by
  have hb : b.toNat < 256 := b.toNat_lt
  have hq {n : Nat} (hn : b.toNat = n) {q' : Sequence}
      (hs : Sequence.start? (UInt8.ofNat n) = some q') : q = q' := by
    rw [eq_ofNat_of_toNat hn, hs] at h
    exact (Option.some.inj h).symm
  by_cases hn : b.toNat < 0xc2 ∨ 0xf4 < b.toNat
  · rw [← UInt8.ofNat_toNat (x := b), start?_eq_none _ hb hn] at h
    cases h
  by_cases h2 : b.toNat < 0xe0
  · have he : b.toNat = b.toNat - 0xc0 + 0xc0 := by omega
    exact .inl ⟨_, by omega, by omega, eq_ofNat_of_toNat he,
      hq he (start?_two _ (by omega) (by omega))⟩
  by_cases h3 : b.toNat < 0xf0
  · have he : b.toNat = b.toNat - 0xe0 + 0xe0 := by omega
    exact .inr (.inl ⟨_, by omega, eq_ofNat_of_toNat he, hq he (start?_three _ (by omega))⟩)
  · have he : b.toNat = b.toNat - 0xf0 + 0xf0 := by omega
    exact .inr (.inr ⟨_, by omega, eq_ofNat_of_toNat he, hq he (start?_four _ (by omega))⟩)

/-- What decodes inside of a sequence starts with a byte in its range. -/
theorem decodeFrom_open (hl : 0x80 ≤ low.toNat) (hh : high.toNat ≤ 0xbf)
    (h : decodeFrom i (some ⟨bits, seen, owed, low, high⟩) bytes = .ok s) :
    ∃ m rest, m < 64 ∧ low.toNat ≤ m + 0x80 ∧ m + 0x80 ≤ high.toNat ∧
      bytes = UInt8.ofNat (m + 0x80) :: rest ∧
      (if owed ≤ 1 then (Char.ofNat (bits * 64 + m) :: ·) <$> decodeFrom (i + 1) none rest
        else decodeFrom (i + 1) (some ⟨bits * 64 + m, seen + 1, owed - 1, 0x80, 0xbf⟩) rest) =
          .ok s := by
  cases bytes with
  | nil => cases h
  | cons b rest =>
    by_cases hr : (decide (low ≤ b) && decide (b ≤ high)) = true
    · have hr' : low.toNat ≤ b.toNat ∧ b.toNat ≤ high.toNat := by
        simpa only [Bool.and_eq_true, decide_eq_true_eq, UInt8.le_iff_toNat_le] using hr
      obtain ⟨hbl, hbh⟩ := hr'
      have he : b.toNat = b.toNat - 0x80 + 0x80 := by omega
      rw [eq_ofNat_of_toNat he, decodeFrom_continuation (by omega) (by omega) (by omega)] at h
      exact ⟨b.toNat - 0x80, rest, by omega, by omega, by omega,
        congrArg (· :: rest) (eq_ofNat_of_toNat he), h⟩
    · rw [decodeFrom] at h
      simp only [hr] at h
      cases h

/-- A further byte of what decodes inside of a sequence, where it may be any. -/
theorem decodeFrom_open_further
    (h : decodeFrom i (some ⟨bits, seen, owed, 0x80, 0xbf⟩) bytes = .ok s) :
    ∃ m rest, m < 64 ∧ bytes = UInt8.ofNat (m + 0x80) :: rest ∧
      (if owed ≤ 1 then (Char.ofNat (bits * 64 + m) :: ·) <$> decodeFrom (i + 1) none rest
        else decodeFrom (i + 1) (some ⟨bits * 64 + m, seen + 1, owed - 1, 0x80, 0xbf⟩) rest) =
          .ok s := by
  obtain ⟨m, rest, hm, -, -, hb, h⟩ := decodeFrom_open (by decide) (by decide) h
  exact ⟨m, rest, hm, hb, h⟩

/-- A text with a character put in front. -/
theorem map_cons_eq_ok {c : Char} {x : Except Fault (List Char)} (h : (c :: ·) <$> x = .ok s) :
    ∃ s', x = .ok s' ∧ s = c :: s' := by
  cases x with
  | error => cases h
  | ok s' => exact ⟨s', rfl, (Except.ok.inj h).symm⟩

/-- What decodes and is not empty starts with the bytes of a character, and decodes behind them. -/
theorem exists_char (h : decodeFrom i none (b :: bytes) = .ok s) :
    ∃ c s' rest j, s = c :: s' ∧ b :: bytes = String.utf8EncodeChar c ++ rest ∧
      decodeFrom j none rest = .ok s' := by
  rw [decodeFrom] at h
  by_cases hb : b < 0x80
  · rw [if_pos hb] at h
    obtain ⟨s', hs, rfl⟩ := map_cons_eq_ok h
    have hv : b.toNat < 0x80 := UInt8.lt_iff_toNat_lt.1 hb
    refine ⟨_, s', bytes, _, rfl, ?_, hs⟩
    rw [utf8EncodeChar_one hv, UInt8.ofNat_toNat]
    rfl
  rw [if_neg hb] at h
  cases hq : Sequence.start? b with
  | none =>
    rw [hq] at h
    cases h
  | some q =>
    rw [hq] at h
    dsimp only at h
    rcases start?_cases hq with ⟨n, hn, hn', rfl, rfl⟩ | ⟨n, hn, rfl, rfl⟩ | ⟨n, hn, rfl, rfl⟩
    · obtain ⟨m, rest, hm, rfl, h₂⟩ := decodeFrom_open_further h
      rw [if_pos (by decide)] at h₂
      obtain ⟨s', hs, rfl⟩ := map_cons_eq_ok h₂
      refine ⟨_, s', rest, _, rfl, ?_, hs⟩
      rw [utf8EncodeChar_two hn hn' hm]
      rfl
    · obtain ⟨m, rest, hm, hlow, hhigh, rfl, h₂⟩ :=
        decodeFrom_open (by split <;> decide) (by split <;> decide) h
      rw [if_neg (by decide)] at h₂
      obtain ⟨k, rest, hk, rfl, h₃⟩ := decodeFrom_open_further h₂
      rw [if_pos (by decide)] at h₃
      obtain ⟨s', hs, rfl⟩ := map_cons_eq_ok h₃
      refine ⟨_, s', rest, _, rfl, ?_, hs⟩
      -- the narrowed ranges rule out shorter forms behind 0xe0 and surrogates behind 0xed
      have hl : n ≠ 0 ∨ 32 ≤ m := by
        by_cases h0 : n = 0
        · simp only [h0, if_true, UInt8.reduceToNat] at hlow
          exact .inr (by omega)
        · exact .inl h0
      have hs : n ≠ 13 ∨ m < 32 := by
        by_cases h13 : n = 13
        · simp only [h13, if_true, UInt8.reduceToNat] at hhigh
          exact .inr (by omega)
        · exact .inl h13
      rw [utf8EncodeChar_three hn hm hk (by omega) hs]
      rfl
    · obtain ⟨m, rest, hm, hlow, hhigh, rfl, h₂⟩ :=
        decodeFrom_open (by split <;> decide) (by split <;> decide) h
      rw [if_neg (by decide)] at h₂
      obtain ⟨k, rest, hk, rfl, h₃⟩ := decodeFrom_open_further h₂
      rw [if_neg (by decide)] at h₃
      obtain ⟨l, rest, hl, rfl, h₄⟩ := decodeFrom_open_further h₃
      rw [if_pos (by decide)] at h₄
      obtain ⟨s', hs, rfl⟩ := map_cons_eq_ok h₄
      refine ⟨_, s', rest, _, rfl, ?_, hs⟩
      -- and shorter forms behind 0xf0, and what is past the last code point behind 0xf4
      have hlo : n ≠ 0 ∨ 16 ≤ m := by
        by_cases h0 : n = 0
        · simp only [h0, if_true, UInt8.reduceToNat] at hlow
          exact .inr (by omega)
        · exact .inl h0
      have hhi : n ≠ 4 ∨ m < 16 := by
        by_cases h4 : n = 4
        · simp only [h4, if_true, UInt8.reduceToNat] at hhigh
          exact .inr (by omega)
        · exact .inl h4
      rw [utf8EncodeChar_four hm hk hl (by omega) (by omega)]
      rfl

/-- What decodes to a text is its encoding. -/
theorem eq_encode_of_decodeFrom :
    ∀ {i : Nat} {bytes : List UInt8} {s : List Char}, decodeFrom i none bytes = .ok s →
      bytes = encode s
  | _, [], _, h => by
    cases h
    rfl
  | _, b :: bytes, _, h => by
    obtain ⟨c, s', rest, j, rfl, hb, hrest⟩ := exists_char h
    have hlt : rest.length < (b :: bytes).length := by
      rw [hb, List.length_append, String.length_utf8EncodeChar]
      exact Nat.lt_add_of_pos_left c.utf8Size_pos
    rw [hb, encode_cons, eq_encode_of_decodeFrom hrest]
termination_by _ bytes => bytes.length
decreasing_by exact hlt

/-- Bytes decode to a text exactly when they are its encoding. -/
theorem decode_eq_ok_iff : decode bytes = .ok s ↔ bytes = encode s :=
  ⟨eq_encode_of_decodeFrom, fun h => h ▸ decode_encode s⟩

/-- Bytes are refused exactly when they are the encoding of no text. -/
theorem exists_decode_eq_error_iff :
    (∃ fault, decode bytes = .error fault) ↔ ∀ s, bytes ≠ encode s := by
  cases h : decode bytes with
  | error fault =>
    refine iff_of_true ⟨fault, rfl⟩ fun s hs => ?_
    rw [hs, decode_encode] at h
    cases h
  | ok s => exact iff_of_false nofun fun hn => hn s (decode_eq_ok_iff.1 h)

/-! ## Texts in a row -/

/-- A character is a byte that opens one and bytes that do not. -/
theorem exists_firstByte (c : Char) :
    ∃ b further, String.utf8EncodeChar c = b :: further ∧ b.IsUTF8FirstByte ∧
      ∀ x ∈ further, ¬ x.IsUTF8FirstByte := by
  have hfirst {i : Nat} (hi : i < (String.utf8EncodeChar c).length) :
      (String.utf8EncodeChar c)[i].IsUTF8FirstByte ↔ i = 0 :=
    UInt8.isUTF8FirstByte_getElem_utf8EncodeChar
  cases h : String.utf8EncodeChar c with
  | nil => exact absurd h String.utf8EncodeChar_ne_nil
  | cons b further =>
    simp only [h] at hfirst
    refine ⟨b, further, rfl, (hfirst (Nat.zero_lt_succ _)).2 rfl, fun x hx => ?_⟩
    obtain ⟨i, hi, rfl⟩ := List.getElem_of_mem hx
    exact fun hx => Nat.succ_ne_zero i ((hfirst (Nat.succ_lt_succ hi)).1 hx)

theorem encode_append (s t : List Char) : encode (s ++ t) = encode s ++ encode t :=
  List.flatMap_append

/-- Texts with the same bytes are the same. -/
theorem encode_inj : encode s = encode t ↔ s = t :=
  ⟨fun h => Except.ok.inj (by rw [← decode_encode s, h, decode_encode]), congrArg encode⟩

/-- What stands behind a text is a text when all is one. -/
theorem exists_of_encode_append (h : encode s ++ bytes = encode t) :
    ∃ u, bytes = encode u ∧ t = s ++ u := by
  have ht := decodeFrom_encode_append s 0 bytes
  rw [h, ← decode, decode_encode] at ht
  cases hu : decodeFrom (0 + (encode s).length) none bytes with
  | error fault =>
    rw [hu] at ht
    cases ht
  | ok u =>
    rw [hu] at ht
    exact ⟨u, eq_encode_of_decodeFrom hu, Except.ok.inj ht⟩

/-- A text that is cut before a byte that opens a character is cut between characters. -/
theorem exists_of_cut (h : bytes ++ b :: rest = encode t) (hb : b.IsUTF8FirstByte) :
    ∃ u v, bytes = encode u ∧ b :: rest = encode v ∧ t = u ++ v := by
  induction t generalizing bytes with
  | nil => cases (List.append_eq_nil_iff.1 h).2
  | cons c t ih =>
    rcases bytes with _ | ⟨b', bytes⟩
    · exact ⟨[], c :: t, rfl, h, rfl⟩
    rw [encode_cons, List.append_eq_append_iff] at h
    rcases h with ⟨_ | ⟨x, cut⟩, hc, hrest⟩ | ⟨later, hbytes, ht⟩
    · refine ⟨[c], t, ?_, hrest, rfl⟩
      rw [encode_cons, hc, List.append_nil]
      exact (List.append_nil _).symm
    · -- the cut would be inside of this character
      obtain ⟨first, further, hchar, -, hfurther⟩ := exists_firstByte c
      rw [hchar] at hc
      refine absurd hb (hfurther b ?_)
      rw [(List.cons.inj hc).2, (List.cons.inj hrest).1]
      exact List.mem_append_right _ List.mem_cons_self
    · obtain ⟨u, v, rfl, hv, rfl⟩ := ih ht.symm
      exact ⟨c :: u, v, hbytes.trans (encode_cons c u).symm, hv, rfl⟩

/-- What stands before a text is a text when all is one. -/
theorem exists_of_append_encode (h : bytes ++ encode s = encode t) :
    ∃ u, bytes = encode u ∧ t = u ++ s := by
  cases s with
  | nil => exact ⟨t, (List.append_nil bytes).symm.trans h, (List.append_nil t).symm⟩
  | cons c s =>
    obtain ⟨b, further, hc, hb, -⟩ := exists_firstByte c
    have hs : encode (c :: s) = b :: (further ++ encode s) := by
      rw [encode_cons, hc, List.cons_append]
    rw [hs] at h
    obtain ⟨u, v, hu, hv, ht⟩ := exists_of_cut h hb
    exact ⟨u, hu, encode_inj.1 (hs.trans hv) ▸ ht⟩

/-- Bytes between two texts are text when all is, and only then. -/
theorem encode_between_eq_iff :
    encode before ++ bytes ++ encode after = encode t ↔
      ∃ s, bytes = encode s ∧ t = before ++ s ++ after := by
  constructor
  · intro h
    rw [List.append_assoc] at h
    obtain ⟨u, hu, rfl⟩ := exists_of_encode_append h
    obtain ⟨s, rfl, rfl⟩ := exists_of_append_encode hu
    exact ⟨s, rfl, (List.append_assoc ..).symm⟩
  · rintro ⟨s, rfl, rfl⟩
    rw [encode_append, encode_append]

/-- The bytes are those of a text. -/
def IsText (bytes : List UInt8) : Prop := ∃ s, bytes = encode s

/-- An ASCII character parts bytes into texts when they are a text, and only then. -/
theorem isText_ascii {a : Char} (ha : encode [a] = [b]) :
    IsText (bytes ++ b :: rest) ↔ IsText bytes ∧ IsText rest := by
  have hcons (rest : List UInt8) : b :: rest = encode [a] ++ rest := by
    rw [ha, List.singleton_append]
  constructor
  · rintro ⟨t, ht⟩
    obtain ⟨first, further, hc, hb, -⟩ := exists_firstByte a
    rw [encode_cons, hc, List.cons_append] at ha
    obtain ⟨u, v, hu, hv, -⟩ := exists_of_cut ht ((List.cons.inj ha).1 ▸ hb)
    obtain ⟨w, hw, -⟩ := exists_of_encode_append ((hcons rest).symm.trans hv)
    exact ⟨⟨u, hu⟩, w, hw⟩
  · rintro ⟨⟨u, rfl⟩, w, rfl⟩
    exact ⟨u ++ [a] ++ w, by rw [encode_append, encode_append, hcons, List.append_assoc]⟩

end SceneScript.Utf8
