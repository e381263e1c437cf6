import SceneScript.Text.Blank

/-!
# Words and trimmed texts

What `words` and `trim` find is settled by where the blanks of a text are. The words of a text are
the pieces that blanks part it into (`Parted`, `words_eq_iff`), and a text is trimmed when the
blanks at its two ends are gone and no other character is (`Trims`, `trim_eq_iff`). So more blanks
at the ends change neither (`words_between`, `trim_between`).
-/

namespace SceneScript.Text

/-! ## Words -/

/-- Blanks part a text into words: each stands between blanks, or between one and an end of the
text. -/
inductive Parted : List Char → List (List Char) → Prop
  | blank : (∀ c ∈ gap, isBlank c = true) → Parted gap []
  | word : (∀ c ∈ gap, isBlank c = true) → word ≠ [] → (∀ c ∈ word, isBlank c = false) →
      (∀ c ∈ rest.head?, isBlank c = true) → Parted rest ws →
      Parted (gap ++ word ++ rest) (word :: ws)

variable {s gap word rest w before after : List Char} {ws : List (List Char)} {c d : Char}

/-- A blank in front belongs to no word. -/
theorem words_blank (h : isBlank c = true) (s : List Char) : words (c :: s) = words s := by
  rw [words.eq_def]
  exact if_pos h

/-- Blanks in front belong to no word. -/
theorem words_gap (h : ∀ c ∈ gap, isBlank c = true) (s : List Char) :
    words (gap ++ s) = words s := by
  induction gap with
  | nil => rfl
  | cons c gap ih =>
    rw [List.cons_append, words_blank (h c List.mem_cons_self),
      ih fun c hc => h c (List.mem_cons_of_mem _ hc)]

/-- Characters up to the next blank, or up to the end, are one word. -/
theorem words_run (hne : word ≠ []) (h : ∀ c ∈ word, isBlank c = false)
    (hr : ∀ c ∈ rest.head?, isBlank c = true) : words (word ++ rest) = word :: words rest := by
  induction word with
  | nil => exact absurd rfl hne
  | cons c word ih =>
    obtain ⟨hc, hword⟩ := List.forall_mem_cons.1 h
    rw [List.cons_append, words.eq_def]
    dsimp only
    rw [hc, if_neg Bool.false_ne_true]
    cases word with
    | nil =>
      cases rest with
      | nil => rfl
      | cons d rest => exact if_pos (hr d rfl)
    | cons d word =>
      rw [List.cons_append]
      dsimp only
      rw [hword d List.mem_cons_self, if_neg Bool.false_ne_true, ← List.cons_append,
        ih (List.cons_ne_nil _ _) hword]

/-- A word, a blank behind it and a text have that word and then the words of the text. -/
theorem words_append_blank (hne : word ≠ []) (h : ∀ c ∈ word, isBlank c = false)
    (hc : isBlank c = true) (s : List Char) : words (word ++ c :: s) = word :: words s := by
  have hr : ∀ d ∈ (c :: s).head?, isBlank d = true := by
    intro d hd
    rw [← Option.some.inj hd]
    exact hc
  rw [words_run hne h hr, words_blank hc]

/-- The words of a text are what blanks part it into. -/
theorem Parted.words_eq (h : Parted s ws) : words s = ws := by
  induction h with
  | @blank gap hgap => rw [← List.append_nil gap, words_gap hgap, words]
  | word hgap hne hword hr _ ih =>
    rw [List.append_assoc, words_gap hgap, words_run hne hword hr, ih]

/-- A blank more in front parts nothing more. -/
theorem Parted.cons_blank (hc : isBlank c = true) (h : Parted s ws) : Parted (c :: s) ws := by
  cases h with
  | blank hgap => exact .blank (List.forall_mem_cons.2 ⟨hc, hgap⟩)
  | @word gap word rest ws hgap hne hword hr hrest =>
    change Parted ((c :: gap) ++ word ++ rest) (word :: ws)
    exact .word (List.forall_mem_cons.2 ⟨hc, hgap⟩) hne hword hr hrest

/-- A character more in front of a word belongs to it: the word starts the text, since the character
behind is no blank. -/
theorem Parted.cons_char (hc : isBlank c = false) (hd : isBlank d = false)
    (h : Parted (d :: s) ws) :
    ∃ word words, ws = word :: words ∧ Parted (c :: d :: s) ((c :: word) :: words) := by
  generalize ht : d :: s = t at h
  cases h with
  | blank hgap =>
    rw [hgap d (ht ▸ List.mem_cons_self)] at hd
    cases hd
  | @word gap word rest ws hgap hne hword hr hrest =>
    cases gap with
    | nil =>
      refine ⟨word, ws, rfl, ?_⟩
      change Parted ([] ++ (c :: word) ++ rest) ((c :: word) :: ws)
      exact .word nofun (List.cons_ne_nil c word) (List.forall_mem_cons.2 ⟨hc, hword⟩) hr hrest
    | cons e gap =>
      obtain ⟨rfl, -⟩ := List.cons.inj ht
      rw [hgap d List.mem_cons_self] at hd
      cases hd

/-- Blanks part a text into its words. -/
theorem parted_words (s : List Char) : Parted s (words s) := by
  induction s with
  | nil => exact .blank (List.forall_mem_nil _)
  | cons c s ih =>
    rw [words.eq_def]
    dsimp only
    cases hc : isBlank c with
    | true => exact ih.cons_blank hc
    | false =>
      rw [if_neg Bool.false_ne_true]
      have hsingle : ∀ e ∈ [c], isBlank e = false := List.forall_mem_singleton.2 hc
      cases s with
      | nil =>
        change Parted ([] ++ [c] ++ []) [[c]]
        exact .word (List.forall_mem_nil _) (List.cons_ne_nil c []) hsingle (by simp) ih
      | cons d s =>
        dsimp only
        cases hd : isBlank d with
        | true =>
          change Parted ([] ++ [c] ++ d :: s) ([c] :: words (d :: s))
          refine .word (List.forall_mem_nil _) (List.cons_ne_nil c []) hsingle (fun e he => ?_) ih
          rw [← Option.some.inj he]
          exact hd
        | false =>
          rw [if_neg Bool.false_ne_true]
          obtain ⟨word, rest, hw, hp⟩ := ih.cons_char hc hd
          rw [hw]
          exact hp

/-- The words of a text are what blanks part it into, and nothing else is. -/
theorem words_eq_iff : words s = ws ↔ Parted s ws :=
  ⟨fun h => h ▸ parted_words s, Parted.words_eq⟩

/-- A word is not empty and holds no blank. -/
theorem Parted.forall_mem (h : Parted s ws) :
    ∀ w ∈ ws, w ≠ [] ∧ ∀ c ∈ w, isBlank c = false := by
  induction h with
  | blank => exact fun w hw => absurd hw List.not_mem_nil
  | word _ hne hword _ _ ih => exact List.forall_mem_cons.2 ⟨⟨hne, hword⟩, ih⟩

/-- Blanks at the end part nothing more. -/
theorem Parted.append_gap (h : Parted s ws) (hafter : ∀ c ∈ after, isBlank c = true) :
    Parted (s ++ after) ws := by
  induction h with
  | blank hgap => exact .blank fun c hc => (List.mem_append.1 hc).elim (hgap c) (hafter c)
  | @word gap word rest ws hgap hne hword hr _ ih =>
    rw [List.append_assoc]
    refine .word hgap hne hword (fun c hc => ?_) ih
    cases rest with
    | nil => exact hafter c (List.mem_of_mem_head? hc)
    | cons d rest => exact hr c hc

/-- Blanks at the ends belong to no word. -/
theorem words_between (hb : ∀ c ∈ before, isBlank c = true) (ha : ∀ c ∈ after, isBlank c = true)
    (s : List Char) : words (before ++ s ++ after) = words s := by
  rw [List.append_assoc, words_gap hb]
  exact ((parted_words s).append_gap ha).words_eq

/-! ## Trimmed texts -/

/-- A text without the blanks at its two ends. -/
def Trims (s w : List Char) : Prop :=
  ∃ before after, s = before ++ w ++ after ∧ (∀ c ∈ before, isBlank c = true) ∧
    (∀ c ∈ after, isBlank c = true) ∧ (∀ c ∈ w.head?, isBlank c = false) ∧
    ∀ c ∈ w.getLast?, isBlank c = false

/-- Blanks at an end are left out up to the first other character. -/
theorem dropWhile_gap (h : ∀ c ∈ gap, isBlank c = true) (hs : ∀ c ∈ s.head?, isBlank c = false) :
    (gap ++ s).dropWhile isBlank = s := by
  rw [List.dropWhile_append_of_pos h]
  cases s with
  | nil => rfl
  | cons c s => rw [List.dropWhile_cons_of_neg (Bool.not_eq_true _ ▸ hs c rfl)]

/-- Blanks at the end are left out. -/
theorem trimEnd_append (hw : ∀ c ∈ w.getLast?, isBlank c = false)
    (ha : ∀ c ∈ after, isBlank c = true) : trimEnd (w ++ after) = w := by
  have ha' : ∀ c ∈ after.reverse, isBlank c = true := fun c hc => ha c (List.mem_reverse.1 hc)
  rw [trimEnd, List.reverse_append, dropWhile_gap ha' (List.head?_reverse ▸ hw),
    List.reverse_reverse]

/-- What is left when blanks in front are left out does not start with one. -/
theorem head?_dropWhile (s : List Char) : ∀ c ∈ (s.dropWhile isBlank).head?, isBlank c = false := by
  intro c hc
  have h := List.head?_dropWhile_not isBlank s
  rw [hc] at h
  exact h

/-- A text is trimmed to what is left without the blanks at its ends. -/
theorem Trims.trim_eq (h : Trims s w) : trim s = w := by
  obtain ⟨before, after, rfl, hb, ha, hhead, hlast⟩ := h
  cases w with
  | nil =>
    have hall : ∀ c ∈ before ++ after, isBlank c = true := fun c hc =>
      (List.mem_append.1 hc).elim (hb c) (ha c)
    have hnil := dropWhile_gap (s := []) hall nofun
    rw [List.append_nil] at hnil
    rw [trim, List.append_nil, hnil]
    rfl
  | cons c w =>
    have hhead' : ∀ d ∈ (c :: w ++ after).head?, isBlank d = false := hhead
    rw [trim, List.append_assoc, dropWhile_gap hb hhead', trimEnd_append hlast ha]

/-- A text is what `trim` leaves and the blanks at its ends. -/
theorem trims_trim (s : List Char) : Trims s (trim s) := by
  have hblank (t : List Char) : ∀ c ∈ t.takeWhile isBlank, isBlank c = true := fun c hc =>
    List.all_eq_true.1 List.all_takeWhile c hc
  have hend (t : List Char) : t = trimEnd t ++ (t.reverse.takeWhile isBlank).reverse := by
    rw [trimEnd, ← List.reverse_append, List.takeWhile_append_dropWhile, List.reverse_reverse]
  refine ⟨s.takeWhile isBlank, ((s.dropWhile isBlank).reverse.takeWhile isBlank).reverse, ?_,
    hblank s, fun c hc => hblank _ c (List.mem_reverse.1 hc), fun c hc => ?_, ?_⟩
  · rw [trim, List.append_assoc, ← hend, List.takeWhile_append_dropWhile]
  · refine head?_dropWhile s c ?_
    have hc' : (trimEnd (s.dropWhile isBlank)).head? = some c := hc
    rw [hend (s.dropWhile isBlank), List.head?_append, hc']
    rfl
  · rw [trim, trimEnd, List.getLast?_reverse]
    exact head?_dropWhile _

/-- A text is trimmed by leaving out the blanks at its ends, and nothing else. -/
theorem trim_eq_iff : trim s = w ↔ Trims s w :=
  ⟨fun h => h ▸ trims_trim s, Trims.trim_eq⟩

/-- Blanks more at the ends leave nothing more. -/
theorem Trims.between (h : Trims s w) (hb : ∀ c ∈ before, isBlank c = true)
    (ha : ∀ c ∈ after, isBlank c = true) : Trims (before ++ s ++ after) w := by
  obtain ⟨first, last, rfl, hf, hl, hw⟩ := h
  refine ⟨before ++ first, last ++ after, by simp only [List.append_assoc], ?_, ?_, hw⟩
  · exact fun c hc => (List.mem_append.1 hc).elim (hb c) (hf c)
  · exact fun c hc => (List.mem_append.1 hc).elim (hl c) (ha c)

/-- Blanks at the ends are trimmed away, however many there are. -/
theorem trim_between (hb : ∀ c ∈ before, isBlank c = true) (ha : ∀ c ∈ after, isBlank c = true)
    (s : List Char) : trim (before ++ s ++ after) = trim s :=
  ((trims_trim s).between hb ha).trim_eq

end SceneScript.Text
