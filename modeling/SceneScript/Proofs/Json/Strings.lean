import SceneScript.Json.Reading

/-!
# Strings in JSON

A character is spelled in one of three ways (`JsonValue.escape_cases`): by a backslash and one
character, by its number, or as it is. Each of them is read to its end and means the character, so
a text is spelled by a string that reads back (`JsonValue.stringRest_flatMap_escape`,
`JsonValue.unescape?_flatMap_escape`).
-/

namespace SceneScript.JsonValue

variable {c e : Char}

/-- How a character is spelled, and what that says about it. -/
theorem escape_cases (c : Char) :
    (∃ e, escape c = ['\\', e] ∧ escapes.lookup e = some c) ∨
      (∃ a b, escape c = ['\\', 'u', '0', '0', a, b] ∧
        hexNumber? ['0', '0', a, b] = some c.toNat ∧ c.toNat < 32) ∨
      escape c = [c] ∧ c ≠ '"' ∧ c ≠ '\\' ∧ ¬ c < ' ' := by
  have control : ∀ n : Fin 32, hexNumber? ('0' :: '0' :: Text.hexByte (Char.ofNat n).toUInt8) =
      some (Char.ofNat n).toNat := by decide
  unfold escape
  split
  iterate 7 exact .inl ⟨_, rfl, by decide⟩
  · next hquote hback _ _ _ _ _ =>
    split
    · next hlt =>
      have hc : c.toNat < 32 := hlt
      refine .inr (.inl ⟨_, _, rfl, ?_, hc⟩)
      have h := control ⟨c.toNat, hc⟩
      rw [Char.ofNat_toNat] at h
      exact h
    · next hle => exact .inr (.inr ⟨rfl, hquote, hback, hle⟩)

/-- A number is spelled behind a backslash and `u`, which stands for no character by itself. -/
theorem ne_u_of_lookup (h : escapes.lookup e = some c) : e ≠ 'u' := by
  rintro rfl
  have hnone : escapes.lookup 'u' = none := by decide
  rw [hnone] at h
  cases h

/-- The spelling of a character is read off the front of a string. -/
theorem stringRest_escape (c : Char) (s : List Char) :
    stringRest (escape c ++ s) = (stringRest s).map fun (t, rest) => (escape c ++ t, rest) := by
  rcases escape_cases c with ⟨e, he, hlookup⟩ | ⟨a, b, he, hnumber, -⟩ | ⟨he, hquote, hback, hlt⟩
  · have hu := ne_u_of_lookup hlookup
    rw [he]
    simp [stringRest, hlookup, hu]
  · rw [he]
    simp [stringRest, hnumber]
  · rw [he]
    simp [stringRest, hback, hlt]

/-- The spelling of a character means the character. -/
theorem unescape?_escape (c : Char) (s : List Char) :
    unescape? (escape c ++ s) = (unescape? s).map (c :: ·) := by
  rcases escape_cases c with ⟨e, he, hlookup⟩ | ⟨a, b, he, hnumber, hc⟩ | ⟨he, hquote, hback, hlt⟩
  · have hu := ne_u_of_lookup hlookup
    rw [he]
    simp [unescape?, hlookup, hu]
  · have hleading : isLeading c.toNat = false := by
      rw [isLeading, Bool.and_eq_false_iff]
      left
      simp
      omega
    have htrailing : isTrailing c.toNat = false := by
      rw [isTrailing, Bool.and_eq_false_iff]
      left
      simp
      omega
    rw [he]
    simp [unescape?, hnumber, hleading, htrailing, Char.ofNat_toNat]
  · rw [he]
    simp [unescape?, hback]

/-- A string is read up to the quote behind it. -/
theorem stringRest_flatMap_escape (t rest : List Char) :
    stringRest (t.flatMap escape ++ '"' :: rest) = some (t.flatMap escape, rest) := by
  induction t with
  | nil => rfl
  | cons c t ih =>
    rw [List.flatMap_cons, List.append_assoc, stringRest_escape, ih]
    rfl

/-- A string means the text that it spells. -/
theorem unescape?_flatMap_escape (t : List Char) : unescape? (t.flatMap escape) = some t := by
  induction t with
  | nil => rfl
  | cons c t ih =>
    rw [List.flatMap_cons, unescape?_escape, ih]
    rfl

end SceneScript.JsonValue
