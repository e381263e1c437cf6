import SceneScript.Json.Writing
import SceneScript.Proofs.Json.Numbers
import SceneScript.Proofs.Json.Strings

/-!
# Values that read back

A value whose numbers and strings are well spelled (`JsonValue.IsSpelled`) is written as a text that
is read as this value (`JsonValue.read?_text`). Each reader takes the text of what it reads off the
front, whatever stands behind it that does not go on with a number (`JsonValue.valueFront_text`); and
twice as many calls as characters are enough, because every item brings a comma or a bracket with it.
-/

namespace SceneScript.JsonValue

open Decimal

variable {c : Char} {s t rest : List Char} {v : JsonValue} {vs : List JsonValue}
  {ms : List (List Char × JsonValue)} {fuel : Nat}

/-- The string spells some text. -/
def IsString (s : List Char) : Prop := ∃ t : List Char, s = t.flatMap escape

/-- All numbers and strings of the value are well spelled. -/
inductive IsSpelled : JsonValue → Prop
  | null : IsSpelled null
  | bool (b : Bool) : IsSpelled (bool b)
  | number {s : List Char} (h : IsNumber s) : IsSpelled (number s)
  | string {s : List Char} (h : IsString s) : IsSpelled (string s)
  | array {vs : List JsonValue} (h : ∀ v ∈ vs, IsSpelled v) : IsSpelled (array vs)
  | object {ms : List (List Char × JsonValue)} (hkeys : ∀ m ∈ ms, IsString m.1)
    (hvalues : ∀ m ∈ ms, IsSpelled m.2) : IsSpelled (object ms)

/-! ## First characters -/

/-- A number begins with none of the characters that other things begin or end with. -/
theorem numberStart_cases (hc : c = '-' ∨ isDigit c = true) :
    isSpace c = false ∧ c ≠ 'n' ∧ c ≠ 't' ∧ c ≠ 'f' ∧ c ≠ '"' ∧ c ≠ '[' ∧ c ≠ '\x7b' ∧ c ≠ ']' := by
  have ne {e : Char} (he : ¬ (e = '-' ∨ isDigit e = true)) : c ≠ e := fun h => he (h ▸ hc)
  refine ⟨?_, ne (by decide), ne (by decide), ne (by decide), ne (by decide), ne (by decide),
    ne (by decide), ne (by decide)⟩
  have hblank : c ≠ ' ' ∧ c ≠ '\n' ∧ c ≠ '\t' ∧ c ≠ '\r' :=
    ⟨ne (by decide), ne (by decide), ne (by decide), ne (by decide)⟩
  simp [isSpace, hblank]

theorem skip_cons (hc : isSpace c = false) (s : List Char) : skip (c :: s) = c :: s :=
  List.dropWhile_cons_of_neg (by simp [hc])

/-- The text of a value begins with a character that is no white space and no closing bracket. -/
theorem IsSpelled.text_head (h : v.IsSpelled) :
    ∃ c t, v.text = c :: t ∧ isSpace c = false ∧ c ≠ ']' := by
  cases h with
  | null => exact ⟨'n', _, rfl, by decide, by decide⟩
  | bool b => cases b <;> exact ⟨_, _, rfl, by decide, by decide⟩
  | number h =>
    obtain ⟨c, t, rfl, hc⟩ := h.head
    obtain ⟨hspace, -, -, -, -, -, -, hclosing⟩ := numberStart_cases hc
    exact ⟨c, t, rfl, hspace, hclosing⟩
  | string h | array h | object hkeys hvalues => exact ⟨_, _, rfl, by decide, by decide⟩

theorem endsNumber_cons (hc : isDigit c = false ∧ c ≠ '.' ∧ c ≠ 'e' ∧ c ≠ 'E') (s : List Char) :
    EndsNumber (c :: s) := by
  rintro e ⟨⟩
  exact hc

/-! ## Reading what was written -/

/-- The value is read off its text with two calls for each character, whatever stands behind it. -/
def ReadsBack (v : JsonValue) : Prop :=
  ∀ fuel rest, 2 * v.text.length ≤ fuel → EndsNumber rest →
    valueFront fuel (v.text ++ rest) = some (v, rest)

theorem readsBack_number (h : IsNumber s) : ReadsBack (number s) := by
  intro fuel rest hfuel hrest
  obtain ⟨c, t, hcons, hc⟩ := h.head
  obtain ⟨hspace, hn, ht, hf, hquote, hbracket, hbrace, -⟩ := numberStart_cases hc
  have hread := numberFront_append h hrest
  rw [text] at hfuel ⊢
  rw [hcons] at hfuel
  obtain ⟨fuel, rfl⟩ := Nat.exists_eq_succ_of_ne_zero (show fuel ≠ 0 by simp at hfuel; omega)
  rw [valueFront, hcons, List.cons_append, skip_cons hspace]
  rw [hcons, List.cons_append] at hread
  -- the first character belongs to none of the other values
  split
  case h_7 => exact hread
  all_goals next heq => exact absurd (List.cons.inj heq).1 ‹_›

/-- An item with others behind it. -/
theorem itemsFront_comma (h : valueFront fuel s = some (v, ',' :: t)) :
    itemsFront (fuel + 1) s = (itemsFront fuel t).map fun (vs, rest) => (v :: vs, rest) := by
  rw [itemsFront, h]
  rfl

/-- The last item. -/
theorem itemsFront_bracket (h : valueFront fuel s = some (v, ']' :: rest)) :
    itemsFront (fuel + 1) s = some ([v], rest) := by
  rw [itemsFront, h]
  rfl

/-- Items are read up to the bracket behind them. -/
theorem itemsFront_text (hne : vs ≠ []) (hvs : ∀ v ∈ vs, ReadsBack v)
    (hfuel : 2 * (itemsText vs).length + 1 ≤ fuel) :
    itemsFront fuel (itemsText vs ++ ']' :: rest) = some (vs, rest) := by
  induction vs generalizing fuel with
  | nil => exact absurd rfl hne
  | cons v vs ih =>
    obtain ⟨fuel, rfl⟩ := Nat.exists_eq_succ_of_ne_zero (show fuel ≠ 0 by omega)
    obtain ⟨hv, hvs⟩ := List.forall_mem_cons.1 hvs
    cases vs with
    | nil =>
      rw [itemsText] at hfuel ⊢
      exact itemsFront_bracket (hv fuel _ (by omega) (endsNumber_cons (by decide) _))
    | cons w vs =>
      have htext : itemsText (v :: w :: vs) = v.text ++ ',' :: itemsText (w :: vs) := rfl
      rw [htext, List.length_append, List.length_cons] at hfuel
      rw [htext, List.append_assoc, List.cons_append,
        itemsFront_comma (hv fuel _ (by omega) (endsNumber_cons (by decide) _)),
        ih (List.cons_ne_nil w vs) hvs (by omega)]
      rfl

/-- A member with others behind it. -/
theorem membersFront_comma (h : valueFront fuel s = some (v, ',' :: t)) (key : List Char) :
    membersFront (fuel + 1) ('"' :: (key.flatMap escape ++ '"' :: ':' :: s)) =
      (membersFront fuel t).map fun (ms, rest) => ((key.flatMap escape, v) :: ms, rest) := by
  rw [membersFront, skip_cons (by decide)]
  simp only [stringRest_flatMap_escape, skip_cons (show isSpace ':' = false by decide), h]
  rfl

/-- The last member. -/
theorem membersFront_brace (h : valueFront fuel s = some (v, '\x7d' :: rest)) (key : List Char) :
    membersFront (fuel + 1) ('"' :: (key.flatMap escape ++ '"' :: ':' :: s)) =
      some ([(key.flatMap escape, v)], rest) := by
  rw [membersFront, skip_cons (by decide)]
  simp only [stringRest_flatMap_escape, skip_cons (show isSpace ':' = false by decide), h]
  rfl

/-- Members are read up to the brace behind them. -/
theorem membersFront_text (hne : ms ≠ []) (hkeys : ∀ m ∈ ms, IsString m.1)
    (hvalues : ∀ m ∈ ms, ReadsBack m.2) (hfuel : 2 * (membersText ms).length + 1 ≤ fuel) :
    membersFront fuel (membersText ms ++ '\x7d' :: rest) = some (ms, rest) := by
  induction ms generalizing fuel with
  | nil => exact absurd rfl hne
  | cons m ms ih =>
    obtain ⟨fuel, rfl⟩ := Nat.exists_eq_succ_of_ne_zero (show fuel ≠ 0 by omega)
    obtain ⟨⟨key, hkey⟩, hkeys'⟩ := List.forall_mem_cons.1 hkeys
    obtain ⟨hv, hvalues'⟩ := List.forall_mem_cons.1 hvalues
    obtain ⟨_, v⟩ := m
    obtain rfl : _ = key.flatMap escape := hkey
    change ReadsBack v at hv
    cases ms with
    | nil =>
      rw [membersText] at hfuel ⊢
      simp only [List.length_append, List.length_cons] at hfuel
      simp only [List.cons_append, List.append_assoc]
      exact membersFront_brace (hv fuel _ (by omega) (endsNumber_cons (by decide) _)) key
    | cons m ms =>
      have htext : membersText ((key.flatMap escape, v) :: m :: ms) =
          '"' :: key.flatMap escape ++ '"' :: ':' :: v.text ++ ',' :: membersText (m :: ms) := rfl
      rw [htext] at hfuel ⊢
      simp only [List.length_append, List.length_cons] at hfuel
      simp only [List.cons_append, List.append_assoc]
      rw [membersFront_comma (hv fuel _ (by omega) (endsNumber_cons (by decide) _)) key,
        ih (List.cons_ne_nil m ms) hkeys' hvalues' (by omega)]
      rfl

/-- A bracket with something behind it that is not the closing one. -/
theorem valueFront_bracket (hc : isSpace c = false) (hne : c ≠ ']') (s : List Char) :
    valueFront (fuel + 1) ('[' :: c :: s) =
      (itemsFront fuel (c :: s)).map fun (vs, rest) => (array vs, rest) := by
  rw [valueFront, skip_cons (by decide)]
  simp only [skip_cons hc]
  split
  · next heq => exact absurd (List.cons.inj heq).1 hne
  · rfl

/-- The text of some items begins as the text of the first one. -/
theorem itemsText_head (h : v.IsSpelled) (vs : List JsonValue) :
    ∃ c t, itemsText (v :: vs) = c :: t ∧ isSpace c = false ∧ c ≠ ']' := by
  obtain ⟨c, t, htext, hc⟩ := h.text_head
  cases vs with
  | nil => exact ⟨c, t, htext, hc⟩
  | cons w vs =>
    have hitems : itemsText (v :: w :: vs) = v.text ++ ',' :: itemsText (w :: vs) := rfl
    exact ⟨c, t ++ ',' :: itemsText (w :: vs), by rw [hitems, htext, List.cons_append], hc⟩

theorem readsBack_array (hvs : ∀ v ∈ vs, v.IsSpelled) (h : ∀ v ∈ vs, ReadsBack v) :
    ReadsBack (array vs) := by
  intro fuel rest hfuel hrest
  rw [text] at hfuel ⊢
  simp only [List.length_append, List.length_cons] at hfuel
  obtain ⟨fuel, rfl⟩ := Nat.exists_eq_succ_of_ne_zero (show fuel ≠ 0 by omega)
  simp only [List.cons_append, List.append_assoc, List.nil_append]
  cases vs with
  | nil => rfl
  | cons v vs =>
    have hread : itemsFront fuel (itemsText (v :: vs) ++ ']' :: rest) = some (v :: vs, rest) :=
      itemsFront_text (List.cons_ne_nil v vs) h (by omega)
    obtain ⟨c, t, hhead, hspace, hclosing⟩ := itemsText_head (hvs v List.mem_cons_self) vs
    rw [hhead, List.cons_append] at hread ⊢
    rw [valueFront_bracket hspace hclosing, hread]
    rfl

/-- The text of some members begins with a quote. -/
theorem membersText_head (hne : ms ≠ []) : ∃ t, membersText ms = '"' :: t := by
  match ms with
  | [] => exact absurd rfl hne
  | [(key, v)] => exact ⟨_, rfl⟩
  | (key, v) :: m :: ms => exact ⟨_, rfl⟩

theorem readsBack_object (hkeys : ∀ m ∈ ms, IsString m.1) (h : ∀ m ∈ ms, ReadsBack m.2) :
    ReadsBack (object ms) := by
  intro fuel rest hfuel hrest
  rw [text] at hfuel ⊢
  simp only [List.length_append, List.length_cons] at hfuel
  obtain ⟨fuel, rfl⟩ := Nat.exists_eq_succ_of_ne_zero (show fuel ≠ 0 by omega)
  simp only [List.cons_append, List.append_assoc, List.nil_append]
  cases ms with
  | nil => rfl
  | cons m ms =>
    have hne := List.cons_ne_nil m ms
    have hread : membersFront fuel (membersText (m :: ms) ++ '\x7d' :: rest) =
        some (m :: ms, rest) := membersFront_text hne hkeys h (by omega)
    obtain ⟨t, hhead⟩ := membersText_head hne
    rw [hhead, List.cons_append] at hread ⊢
    have hbrace : valueFront (fuel + 1) ('\x7b' :: '"' :: (t ++ '\x7d' :: rest)) =
        (membersFront fuel ('"' :: (t ++ '\x7d' :: rest))).map
          fun (ms, rest) => (object ms, rest) := rfl
    rw [hbrace, hread]
    rfl

theorem readsBack_string (h : IsString s) : ReadsBack (string s) := by
  intro fuel rest hfuel hrest
  obtain ⟨t, rfl⟩ := h
  rw [text] at hfuel ⊢
  simp only [List.length_append, List.length_cons] at hfuel
  obtain ⟨fuel, rfl⟩ := Nat.exists_eq_succ_of_ne_zero (show fuel ≠ 0 by omega)
  simp only [List.cons_append, List.append_assoc, List.nil_append]
  rw [valueFront, skip_cons (by decide)]
  simp only [stringRest_flatMap_escape]
  rfl

/-- A well-spelled value is read off its text. -/
theorem valueFront_text (h : v.IsSpelled) : ReadsBack v := by
  induction h with
  | null =>
    intro fuel rest hfuel hrest
    obtain ⟨fuel, rfl⟩ := Nat.exists_eq_succ_of_ne_zero
      (show fuel ≠ 0 by simp [text] at hfuel; omega)
    rfl
  | bool b =>
    intro fuel rest hfuel hrest
    obtain ⟨fuel, rfl⟩ := Nat.exists_eq_succ_of_ne_zero
      (show fuel ≠ 0 by cases b <;> simp [text] at hfuel <;> omega)
    cases b <;> rfl
  | number h => exact readsBack_number h
  | string h => exact readsBack_string h
  | array hvs ih => exact readsBack_array hvs ih
  | object hkeys hvalues ih => exact readsBack_object hkeys ih

/-- What is written of a well-spelled value is read as this value. -/
theorem read?_text (h : v.IsSpelled) : read? v.text = some v := by
  have hread := valueFront_text h (2 * v.text.length + 2) [] (by omega) nofun
  rw [List.append_nil] at hread
  rw [read?, hread]
  rfl

end SceneScript.JsonValue
