import Mathlib.Data.List.Dedup
import SceneScript.Proofs.Script.Names
import SceneScript.Proofs.Text.Encoding

/-!
# Tables of definitions

A definition goes to its place in the order of the names' bytes (`IsOrdered.insertEntry`), so the
entries of every table are in that order, and none has the name of another
(`isOrdered_ofDefinitions`). In order, entries are settled by what the names stand for
(`IsOrdered.ext`), which is their last definition. So a table does not show in which order
different names were defined or what a later definition replaced, and its entries are what sorting
the definitions that count leads to, in whatever order these are found (`definitions_are_kept`).
-/

namespace SceneScript

/-- The last definition of the name gives it the profile. -/
def IsNewest (name : String) (k : Reflectance) (defs : List (String × Reflectance)) : Prop :=
  ∃ before after, defs = before ++ (name, k) :: after ∧ ∀ d ∈ after, d.1 ≠ name

namespace ProfileTable

/-- The names come in the order of their bytes, each of them once. -/
def IsOrdered (entries : List (String × Reflectance)) : Prop :=
  entries.Pairwise fun a b => Utf8.encode a.1.toList < Utf8.encode b.1.toList

/-- The name of the first entry comes no later than that of the second. -/
def comesNoLater (a b : String × Reflectance) : Bool :=
  Utf8.encode a.1.toList ≤ Utf8.encode b.1.toList

/-- Definitions made one after the other: what each of them answers, and the table behind them. -/
def defineAll (t : ProfileTable) :
    List (String × Reflectance) → List (Option Reflectance) × ProfileTable
  | [] => ([], t)
  | (name, k) :: defs =>
    let (answer, next) := t.define name k
    let (answers, last) := next.defineAll defs
    (answer :: answers, last)

/-- How definitions are kept, if these are their answers and this is the table behind them. -/
structure Keeps (defs : List (String × Reflectance)) (answers : List (Option Reflectance))
    (t : ProfileTable) : Prop where
  /-- A name stands for the profile of its last definition. -/
  defined : ∀ name k, t.lookup name = some k ↔ IsNewest name k defs
  /-- A name without a definition stands for nothing, and no other name does. -/
  undefined : ∀ name, t.lookup name = none ↔ ∀ k, (name, k) ∉ defs
  /-- Every definition answers, and says what its name stood for just before. -/
  answered : answers.length = defs.length ∧ ∀ before name k after,
    defs = before ++ (name, k) :: after →
      answers[before.length]? = some ((ofDefinitions before).lookup name)
  /-- A name counts once, however often it is defined. -/
  size : t.size = (defs.map Prod.fst).dedup.length
  isEmpty : t.isEmpty = true ↔ t.size = 0
  /-- A name that is defined is listed once, and no other name is listed. -/
  listed : ∀ name, (t.entries.map Prod.fst).count name = if name ∈ defs.map Prod.fst then 1 else 0
  ordered : IsOrdered t.entries
  /-- A name is listed with the profile that it stands for. -/
  valued : ∀ name k, (name, k) ∈ t.entries ↔ t.lookup name = some k
  /-- Whatever order the definitions are found in, sorting them leads to the list. -/
  sorted : ∀ found : List (String × Reflectance), found.Perm t.entries →
    found.mergeSort comesNoLater = t.entries
  /-- The order of definitions of different names makes no difference. -/
  anyOrder : ∀ others, (∀ name, others.filter (·.1 == name) = defs.filter (·.1 == name)) →
    ofDefinitions others = t

variable {t : ProfileTable} {entries others defs : List (String × Reflectance)} {name : String}
  {k : Reflectance}

/-! ## Entries in order -/

/-- Of two names one comes first, the second if the first does not. -/
theorem encode_lt_of_not_namePrecedes {other : String} (hne : other ≠ name)
    (h : ¬ namePrecedes name other = true) :
    Utf8.encode other.toList < Utf8.encode name.toList := by
  rw [namePrecedes, decide_eq_true_iff, List.not_lt] at h
  refine Decidable.not_not.1 fun hlt => hne (String.toList_inj.1 ?_)
  exact Utf8.encode_inj.1 (List.le_antisymm h (List.not_lt.1 hlt))

/-- A definition brings no entry but itself into a list. -/
theorem mem_insertEntry {entry : String × Reflectance} (h : entry ∈ insertEntry name k entries) :
    entry = (name, k) ∨ entry ∈ entries := by
  induction entries with
  | nil => exact .inl (List.mem_singleton.1 h)
  | cons first entries ih =>
    rw [insertEntry] at h
    split at h
    · exact (List.mem_cons.1 h).imp_right (List.mem_cons_of_mem _)
    · split at h
      · exact List.mem_cons.1 h
      · rcases List.mem_cons.1 h with rfl | h
        · exact .inr List.mem_cons_self
        · exact (ih h).imp_right (List.mem_cons_of_mem _)

/-- A definition goes to its place. -/
theorem IsOrdered.insertEntry (h : IsOrdered entries) (name : String) (k : Reflectance) :
    IsOrdered (insertEntry name k entries) := by
  induction entries with
  | nil => exact List.pairwise_singleton ..
  | cons first entries ih =>
    obtain ⟨hfirst, hrest⟩ := List.pairwise_cons.1 h
    rw [ProfileTable.insertEntry]
    split
    · next heq =>
      subst heq
      exact List.pairwise_cons.2 ⟨hfirst, hrest⟩
    · next hne =>
      split
      · next hlt =>
        have hlt := of_decide_eq_true hlt
        refine List.pairwise_cons.2 ⟨fun entry hmem => ?_, h⟩
        rcases List.mem_cons.1 hmem with rfl | hmem
        · exact hlt
        · exact List.lt_trans hlt (hfirst entry hmem)
      · next hlt =>
        refine List.pairwise_cons.2 ⟨fun entry hmem => ?_, ih hrest⟩
        rcases mem_insertEntry hmem with rfl | hmem
        · exact encode_lt_of_not_namePrecedes hne hlt
        · exact hfirst entry hmem

/-- In order no name comes twice. -/
theorem IsOrdered.nodup_names (h : IsOrdered entries) : (entries.map Prod.fst).Nodup :=
  List.pairwise_map.2 <| h.imp fun hlt heq => by
    rw [heq] at hlt
    exact List.lt_irrefl _ hlt

/-- In order a name stands for the profile that it is listed with. -/
theorem IsOrdered.mem_iff (h : IsOrdered entries) :
    (name, k) ∈ entries ↔ entries.lookup name = some k := by
  induction entries with
  | nil => exact ⟨nofun, nofun⟩
  | cons first entries ih =>
    obtain ⟨other, v⟩ := first
    have hnot := (List.nodup_cons.1 h.nodup_names).1
    rw [List.mem_cons, lookup_cons, ih (List.pairwise_cons.1 h).2]
    by_cases hname : name = other
    · -- the name is not listed again further on
      have hnone : entries.lookup other ≠ some k := fun hk =>
        hnot (List.mem_map.2 ⟨(name, k), (ih (List.pairwise_cons.1 h).2).2 (hname ▸ hk), hname⟩)
      simp [hname, hnone, eq_comm]
    · simp [hname]

/-- Entries in order are settled by what the names stand for. -/
theorem IsOrdered.ext (h : IsOrdered entries) (ho : IsOrdered others)
    (heq : ∀ name, entries.lookup name = others.lookup name) : entries = others := by
  refine List.Perm.eq_of_pairwise (fun a b _ _ hab hba => absurd hba (List.lt_asymm hab)) h ho ?_
  refine (List.perm_ext_iff_of_nodup h.nodup_names.of_map ho.nodup_names.of_map).2 ?_
  rintro ⟨name, k⟩
  rw [h.mem_iff, ho.mem_iff, heq]

/-- Sorting entries by name leads to the one list of them that is in order. -/
theorem IsOrdered.mergeSort_eq (h : IsOrdered entries) {found : List (String × Reflectance)}
    (hfound : found.Perm entries) : found.mergeSort comesNoLater = entries := by
  have hperm : (found.mergeSort comesNoLater).Perm entries :=
    (List.mergeSort_perm found comesNoLater).trans hfound
  have hsorted : (found.mergeSort comesNoLater).Pairwise fun a b => comesNoLater a b = true := by
    refine List.pairwise_mergeSort (fun a b c hab hbc => ?_) (fun a b => ?_) found
    · exact decide_eq_true (List.le_trans (of_decide_eq_true hab) (of_decide_eq_true hbc))
    · exact Bool.or_eq_true_iff.2 ((List.le_total _ _).imp decide_eq_true decide_eq_true)
  refine List.Perm.eq_of_pairwise ?_ hsorted
    (h.imp fun hlt => decide_eq_true (List.le_of_lt hlt)) hperm
  -- entries of one name are the same
  rintro ⟨name, k⟩ ⟨other, v⟩ ha hb hab hba
  obtain rfl : name = other := String.toList_inj.1 <| Utf8.encode_inj.1 <|
    List.le_antisymm (of_decide_eq_true hab) (of_decide_eq_true hba)
  have hk := h.mem_iff.1 (hperm.mem_iff.1 ha)
  rw [h.mem_iff.1 hb] at hk
  cases hk
  rfl

/-! ## Tables that definitions lead to -/

/-- Every table that definitions lead to is in order. -/
theorem isOrdered_ofDefinitions (defs : List (String × Reflectance)) :
    IsOrdered (ofDefinitions defs).entries := by
  suffices h : ∀ t : ProfileTable, IsOrdered t.entries →
      IsOrdered (defs.foldl (fun t d => (t.define d.1 d.2).2) t).entries from
    h .empty List.Pairwise.nil
  induction defs with
  | nil => exact fun t ht => ht
  | cons d defs ih => exact fun t ht => ih _ (ht.insertEntry d.1 d.2)

/-- Tables in which the names stand for the same are the same. -/
theorem ofDefinitions_eq_iff :
    ofDefinitions others = ofDefinitions defs ↔
      ∀ name, (ofDefinitions others).lookup name = (ofDefinitions defs).lookup name := by
  refine ⟨fun h name => h ▸ rfl, fun h => ?_⟩
  have hentries := (isOrdered_ofDefinitions others).ext (isOrdered_ofDefinitions defs) h
  exact congrArg ProfileTable.mk hentries

/-- What a name stands for depends on the definitions of that name only. -/
theorem lookup_filter (defs : List (String × Reflectance)) (name : String) :
    (defs.filter (·.1 == name)).lookup name = defs.lookup name := by
  induction defs with
  | nil => rfl
  | cons d defs ih =>
    obtain ⟨other, v⟩ := d
    by_cases h : name = other
    · simp [h]
    · simp [Ne.symm h, h, lookup_cons, ih]

/-- A table does not depend on the order in which different names were defined. -/
theorem ofDefinitions_of_filter
    (h : ∀ name, others.filter (·.1 == name) = defs.filter (·.1 == name)) :
    ofDefinitions others = ofDefinitions defs := by
  refine ofDefinitions_eq_iff.2 fun name => ?_
  rw [lookup_ofDefinitions, lookup_ofDefinitions, ← lookup_filter, ← lookup_filter defs.reverse,
    List.filter_reverse, List.filter_reverse, h]

/-- A name stands for the profile of its last definition. -/
theorem lookup_ofDefinitions_eq_some_iff :
    (ofDefinitions defs).lookup name = some k ↔ IsNewest name k defs := by
  rw [lookup_ofDefinitions, List.lookup_eq_some_iff]
  constructor
  · rintro ⟨after, before, h, hafter⟩
    refine ⟨before.reverse, after.reverse, ?_, fun d hd => ?_⟩
    · rw [← List.reverse_reverse defs, h]
      simp
    · exact (bne_iff_ne.1 (hafter d (List.mem_reverse.1 hd))).symm
  · rintro ⟨before, after, rfl, hafter⟩
    refine ⟨after.reverse, before.reverse, by simp, fun d hd => ?_⟩
    exact bne_iff_ne.2 (hafter d (List.mem_reverse.1 hd)).symm

/-- The names that are listed are those that are defined. -/
theorem mem_names_iff :
    name ∈ (ofDefinitions defs).entries.map Prod.fst ↔ name ∈ defs.map Prod.fst := by
  have hnames (l : List (String × Reflectance)) : name ∈ l.map Prod.fst ↔ ∃ k, (name, k) ∈ l := by
    simp
  have hentry (k : Reflectance) : (name, k) ∈ (ofDefinitions defs).entries ↔
      (ofDefinitions defs).lookup name = some k := (isOrdered_ofDefinitions defs).mem_iff
  rw [hnames, hnames]
  simp only [hentry]
  rw [← Option.ne_none_iff_exists', ne_eq, lookup_ofDefinitions_eq_none_iff]
  simp only [not_forall, not_not]

/-- The listed names are the defined ones, each of them once. -/
theorem names_perm (defs : List (String × Reflectance)) :
    ((ofDefinitions defs).entries.map Prod.fst).Perm (defs.map Prod.fst).dedup := by
  refine (List.perm_ext_iff_of_nodup (isOrdered_ofDefinitions defs).nodup_names
    (List.nodup_dedup _)).2 fun name => ?_
  rw [mem_names_iff, List.mem_dedup]

/-! ## One definition after another -/

/-- The table behind definitions. -/
theorem snd_defineAll (t : ProfileTable) (defs : List (String × Reflectance)) :
    (t.defineAll defs).2 = defs.foldl (fun t d => (t.define d.1 d.2).2) t := by
  induction defs generalizing t with
  | nil => rfl
  | cons d defs ih => exact ih _

/-- Definitions behind others are made in the table behind those. -/
theorem fst_defineAll_append (t : ProfileTable) (before after : List (String × Reflectance)) :
    (t.defineAll (before ++ after)).1 =
      (t.defineAll before).1 ++ ((t.defineAll before).2.defineAll after).1 := by
  induction before generalizing t with
  | nil => rfl
  | cons d before ih => exact congrArg (_ :: ·) (ih _)

/-- Every definition answers. -/
theorem length_defineAll (t : ProfileTable) (defs : List (String × Reflectance)) :
    (t.defineAll defs).1.length = defs.length := by
  induction defs generalizing t with
  | nil => rfl
  | cons d defs ih => exact congrArg (· + 1) (ih _)

/-- A definition answers what its name stood for behind the definitions before it. -/
theorem getElem?_defineAll (t : ProfileTable) (before after : List (String × Reflectance))
    (name : String) (k : Reflectance) :
    (t.defineAll (before ++ (name, k) :: after)).1[before.length]? =
      some ((t.defineAll before).2.lookup name) := by
  rw [fst_defineAll_append, ← length_defineAll t before,
    List.getElem?_append_right (Nat.le_refl _), Nat.sub_self]
  rfl

/-- Definitions made one after the other from an empty table are kept. -/
theorem definitions_are_kept (defs : List (String × Reflectance)) :
    Keeps defs (empty.defineAll defs).1 (empty.defineAll defs).2 := by
  rw [snd_defineAll]
  change Keeps defs _ (ofDefinitions defs)
  have hordered := isOrdered_ofDefinitions defs
  exact {
    defined := fun name k => lookup_ofDefinitions_eq_some_iff
    undefined := fun name => lookup_ofDefinitions_eq_none_iff
    answered := by
      refine ⟨length_defineAll _ _, ?_⟩
      rintro before name k after rfl
      rw [getElem?_defineAll, snd_defineAll]
      rfl
    size := by
      rw [← (names_perm defs).length_eq, List.length_map]
      rfl
    isEmpty := List.isEmpty_iff_length_eq_zero
    listed := fun name => by
      rw [(names_perm defs).count_eq, List.count_dedup]
    ordered := hordered
    valued := fun name k => hordered.mem_iff
    sorted := fun found => hordered.mergeSort_eq
    anyOrder := fun others => ofDefinitions_of_filter }

example (k v : Reflectance) :
    empty.defineAll [("z", k), ("é", k), ("z", v), ("Z", k)] =
      ([none, none, some k, none], ⟨[("Z", k), ("z", v), ("é", k)]⟩) := rfl

end ProfileTable

/-- However far a script has been read, the names that it has defined so far are in order. -/
theorem Reader.isOrdered_profiles_ask (s : Stream) (n : Nat) :
    ProfileTable.IsOrdered ((ofStream s).ask n).2.profiles.entries := by
  rw [profiles_ask]
  exact ProfileTable.isOrdered_ofDefinitions _

end SceneScript
