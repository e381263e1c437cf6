import SceneScript.Script.Stream

/-!
# The lines of a stream

The lines of a stream and its bytes determine each other: a stream is its lines, each with the
newline behind it, and the bytes behind the last newline (`join_completeLines`,
`completeLines_join_append`), which are a line too where the stream ends (`lines_eq_iff`). So lines
can be taken out of a stream, and the reader of what is left gets the other lines and nothing else
(`lines_select`).
-/

namespace SceneScript

namespace Stream

variable {bytes line rest : List UInt8}

/-- Lines as bytes, each with its newline. -/
def join (lines : List (List UInt8)) : List UInt8 := lines.flatMap (· ++ [newline])

@[simp] theorem join_nil : join [] = [] := rfl

@[simp] theorem join_cons (line : List UInt8) (lines : List (List UInt8)) :
    join (line :: lines) = line ++ newline :: join lines := by
  rw [join, List.flatMap_cons, List.append_assoc]
  rfl

/-! ## Bytes and lines -/

/-- A line comes off the front. -/
theorem completeLines_line (h : newline ∉ line) (bytes : List UInt8) :
    completeLines (line ++ newline :: bytes) =
      (line :: (completeLines bytes).1, (completeLines bytes).2) := by
  induction line with
  | nil => rfl
  | cons b line ih =>
    obtain ⟨hb, hl⟩ := List.ne_and_not_mem_of_not_mem_cons h
    simp only [List.cons_append, completeLines, ih hl, if_neg (Ne.symm hb)]

/-- Bytes without a newline complete no line. -/
theorem completeLines_of_not_mem (h : newline ∉ rest) : completeLines rest = ([], rest) := by
  induction rest with
  | nil => rfl
  | cons b rest ih =>
    obtain ⟨hb, hr⟩ := List.ne_and_not_mem_of_not_mem_cons h
    simp only [completeLines, ih hr, if_neg (Ne.symm hb)]

/-- Bytes are taken line by line, up to those that no newline is behind. -/
theorem induction_lines {motive : List UInt8 → Prop}
    (rest : ∀ rest, newline ∉ rest → motive rest)
    (line : ∀ line bytes, newline ∉ line → motive bytes → motive (line ++ newline :: bytes))
    (bytes : List UInt8) : motive bytes := by
  by_cases h : newline ∈ bytes
  · obtain ⟨first, others, rfl, hf⟩ := List.eq_append_cons_of_mem h
    exact line first others hf (induction_lines rest line others)
  · exact rest bytes h
termination_by bytes.length
decreasing_by
  simp_all only [List.length_append, List.length_cons]
  omega

/-- Lines come back from the bytes they make, and so do the bytes behind them. -/
theorem completeLines_join_append {ls : List (List UInt8)} (hl : ∀ line ∈ ls, newline ∉ line)
    (hr : newline ∉ rest) : completeLines (join ls ++ rest) = (ls, rest) := by
  induction ls with
  | nil => exact completeLines_of_not_mem hr
  | cons line ls ih =>
    rw [join_cons, List.append_assoc, List.cons_append,
      completeLines_line (hl line List.mem_cons_self),
      ih fun l h => hl l (List.mem_cons_of_mem _ h)]

/-- Bytes are the lines they complete and what is behind these. -/
theorem join_completeLines (bytes : List UInt8) :
    join (completeLines bytes).1 ++ (completeLines bytes).2 = bytes := by
  induction bytes using induction_lines with
  | rest rest h => rw [completeLines_of_not_mem h, join_nil, List.nil_append]
  | line line bytes h ih =>
    rw [completeLines_line h, join_cons, List.append_assoc, List.cons_append, ih]

/-- A newline stands behind a line and not in it. -/
theorem newline_not_mem_completeLines (bytes : List UInt8) :
    (∀ line ∈ (completeLines bytes).1, newline ∉ line) ∧ newline ∉ (completeLines bytes).2 := by
  induction bytes using induction_lines with
  | rest rest h =>
    rw [completeLines_of_not_mem h]
    exact ⟨nofun, h⟩
  | line line bytes h ih =>
    rw [completeLines_line h]
    refine ⟨fun l hl => ?_, ih.2⟩
    rcases List.mem_cons.1 hl with rfl | hl
    · exact h
    · exact ih.1 l hl

/-! ## Lines that are taken out -/

/-- The members of a list whose numbers are wanted, `n` members having come before. -/
def selectFrom {α : Type} (wanted : Nat → Bool) (n : Nat) : List α → List α
  | [] => []
  | a :: as =>
    if wanted (n + 1) then a :: selectFrom wanted (n + 1) as else selectFrom wanted (n + 1) as

/-- The bytes of the lines whose numbers are wanted, counted from one, each as it stands in the
stream. -/
def select (wanted : Nat → Bool) (bytes : List UInt8) : List UInt8 :=
  let (complete, rest) := completeLines bytes
  join (selectFrom wanted 0 complete) ++ (selectFrom wanted complete.length [rest]).flatten

variable {α : Type} {wanted wanted' : Nat → Bool} {n : Nat} {as bs : List α}

/-- Numbers go on in a second list. -/
theorem selectFrom_append :
    selectFrom wanted n (as ++ bs) =
      selectFrom wanted n as ++ selectFrom wanted (n + as.length) bs := by
  induction as generalizing n with
  | nil => rfl
  | cons a as ih =>
    rw [List.cons_append, selectFrom, selectFrom, ih, List.length_cons, Nat.add_right_comm,
      Nat.add_assoc n as.length 1]
    split <;> rfl

/-- What is wanted matters at the numbers of the members only. -/
theorem selectFrom_congr (h : ∀ m, n < m → m ≤ n + as.length → wanted m = wanted' m) :
    selectFrom wanted n as = selectFrom wanted' n as := by
  induction as generalizing n with
  | nil => rfl
  | cons a as ih =>
    rw [List.length_cons] at h
    rw [selectFrom, selectFrom, h (n + 1) (by omega) (by omega),
      ih fun m hm hm' => h m (by omega) (by omega)]

/-- All members are wanted. -/
theorem selectFrom_of_all (h : ∀ m, n < m → m ≤ n + as.length → wanted m = true) :
    selectFrom wanted n as = as := by
  induction as generalizing n with
  | nil => rfl
  | cons a as ih =>
    rw [List.length_cons] at h
    have hn : wanted (n + 1) = true := h (n + 1) (by omega) (by omega)
    rw [selectFrom, if_pos hn, ih fun m hm hm' => h m (by omega) (by omega)]

/-- No member is wanted. -/
theorem selectFrom_of_none (h : ∀ m, n < m → m ≤ n + as.length → wanted m = false) :
    selectFrom wanted n as = [] := by
  induction as generalizing n with
  | nil => rfl
  | cons a as ih =>
    rw [List.length_cons] at h
    have hn : wanted (n + 1) = false := h (n + 1) (by omega) (by omega)
    rw [selectFrom, if_neg (by rw [hn]; exact Bool.false_ne_true),
      ih fun m hm hm' => h m (by omega) (by omega)]

/-- Members that are wanted are members. -/
theorem mem_of_mem_selectFrom {a : α} (h : a ∈ selectFrom wanted n as) : a ∈ as := by
  induction as generalizing n with
  | nil => cases h
  | cons b as ih =>
    rw [selectFrom] at h
    split at h
    · rcases List.mem_cons.1 h with rfl | h
      · exact List.mem_cons_self
      · exact List.mem_cons_of_mem _ (ih h)
    · exact List.mem_cons_of_mem _ (ih h)

/-- A stream that ends has the bytes behind the last newline for a line too, if there are any. -/
theorem lines_of_ends (bytes : List UInt8) :
    lines ⟨bytes, none⟩ =
      (completeLines bytes).1 ++
        if (completeLines bytes).2.isEmpty then [] else [(completeLines bytes).2] := by
  unfold lines
  cases h : (completeLines bytes).2.isEmpty <;> simp [h]

/-! ## The lines of a stream that ends -/

/-- Bytes fall into these lines: each ends at a newline, but the last one may end with the bytes. -/
inductive Lined : List UInt8 → List (List UInt8) → Prop
  | none : Lined [] []
  | last {line : List UInt8} : line ≠ [] → newline ∉ line → Lined line [line]
  | line {line rest : List UInt8} {ls : List (List UInt8)} : newline ∉ line → Lined rest ls →
      Lined (line ++ newline :: rest) (line :: ls)

/-- The first line of a stream that ends comes off the front. -/
theorem lines_line (h : newline ∉ line) (bytes : List UInt8) :
    lines ⟨line ++ newline :: bytes, none⟩ = line :: lines ⟨bytes, none⟩ := by
  rw [lines_of_ends, lines_of_ends, completeLines_line h]
  rfl

/-- Bytes without a newline are a line if they are any. -/
theorem lines_of_not_mem (h : newline ∉ rest) :
    lines ⟨rest, none⟩ = if rest.isEmpty then [] else [rest] := by
  rw [lines_of_ends, completeLines_of_not_mem h]
  rfl

/-- The lines of a stream that ends are those that its bytes fall into. -/
theorem lines_eq_iff {ls : List (List UInt8)} : lines ⟨bytes, none⟩ = ls ↔ Lined bytes ls := by
  constructor
  · rintro rfl
    induction bytes using induction_lines with
    | rest rest h =>
      rw [lines_of_not_mem h]
      cases rest with
      | nil => exact .none
      | cons b rest => exact .last (List.cons_ne_nil b rest) h
    | line line bytes h ih =>
      rw [lines_line h]
      exact .line h ih
  · intro h
    induction h with
    | none => rfl
    | @last line hne hl =>
      rw [lines_of_not_mem hl, if_neg fun he => hne (List.isEmpty_iff.1 he)]
    | line hl _ ih => rw [lines_line hl, ih]

/-! ## Lines that are left -/

/-- A reader of the lines that are left gets these lines, and none is cut or joined to another. -/
theorem lines_select (wanted : Nat → Bool) (bytes : List UInt8) :
    lines ⟨select wanted bytes, none⟩ = selectFrom wanted 0 (lines ⟨bytes, none⟩) := by
  obtain ⟨hl, hr⟩ := newline_not_mem_completeLines bytes
  rw [lines_of_ends, lines_of_ends, select]
  generalize completeLines bytes = parts at hl hr
  obtain ⟨complete, rest⟩ := parts
  dsimp only at hl hr ⊢
  have hkept : ∀ line ∈ selectFrom wanted 0 complete, newline ∉ line := fun line h =>
    hl line (mem_of_mem_selectFrom h)
  have hrest : newline ∉ (selectFrom wanted complete.length [rest]).flatten := by
    intro h
    obtain ⟨line, hline, h⟩ := List.mem_flatten.1 h
    rw [List.mem_singleton.1 (mem_of_mem_selectFrom hline)] at h
    exact hr h
  rw [completeLines_join_append hkept hrest, selectFrom_append, Nat.zero_add]
  congr 1
  rw [selectFrom]
  cases hw : wanted (complete.length + 1) with
  | false =>
    cases he : rest.isEmpty with
    | true => rfl
    | false => simp [selectFrom, hw]
  | true =>
    cases he : rest.isEmpty with
    | true => simpa [selectFrom] using he
    | false =>
      have hne : rest ≠ [] := by simpa using he
      simp [selectFrom, hw, hne]

end Stream

end SceneScript
