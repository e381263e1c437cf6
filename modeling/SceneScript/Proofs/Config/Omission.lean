import SceneScript.Config.Writing
import SceneScript.Proofs.Config.Order

/-!
# Records without some of their fields

A member is told by the keys on the way to it, and `JsonValue.prune` leaves out the members of some
ways, at any depth. What is left of a record is a record (`JsonValue.prune_record`), and reading its
fields gives each one that is left, and nothing for the others (`JsonValue.fields?_prune`).
-/

namespace SceneScript.JsonValue

variable {v : JsonValue} {path : List String} {name : String} {given : Option JsonValue}
  {rows : List (String × Option JsonValue)} {removed : List String → Bool}

/-! ## Leaving out -/

/-- The text of a key; its spelling, if it spells none. -/
def keyName (key : List Char) : String := String.ofList ((unescape? key).getD key)

mutual

/-- The value at the end of `path` without the members whose ways are `removed`. -/
def prune (removed : List String → Bool) (path : List String) : JsonValue → JsonValue
  | null => null
  | bool b => bool b
  | number s => number s
  | string s => string s
  | array vs => array vs
  | object ms => object (pruneMembers removed path ms)

/-- Members without those that are removed, each pruned. -/
def pruneMembers (removed : List String → Bool) (path : List String) :
    List (List Char × JsonValue) → List (List Char × JsonValue)
  | [] => []
  | (key, v) :: ms =>
    let field := path ++ [keyName key]
    if removed field then pruneMembers removed path ms
    else (key, prune removed field v) :: pruneMembers removed path ms

end

/-- The value of a field, if it is not removed. -/
def left? (removed : List String → Bool) (field : List String) (v : JsonValue) : Option JsonValue :=
  if removed field then none else some (prune removed field v)

mutual

/-- Nothing changes if nothing is removed. -/
theorem prune_of_none (h : ∀ field, removed field = false) (path : List String) :
    ∀ v : JsonValue, prune removed path v = v
  | null | bool _ | number _ | string _ | array _ => rfl
  | object ms => congrArg object (pruneMembers_of_none h path ms)

theorem pruneMembers_of_none (h : ∀ field, removed field = false) (path : List String) :
    ∀ ms : List (List Char × JsonValue), pruneMembers removed path ms = ms
  | [] => rfl
  | (key, v) :: ms => by
    rw [pruneMembers, h, if_neg Bool.false_ne_true, prune_of_none h, pruneMembers_of_none h path ms]

end

/-- The members that are left are members, pruned. -/
theorem exists_of_mem_pruneMembers {m : List Char × JsonValue} :
    ∀ {ms : List (List Char × JsonValue)}, m ∈ pruneMembers removed path ms →
      ∃ m' ∈ ms, ∃ field, m = (m'.1, prune removed field m'.2)
  | [], h => nomatch h
  | (key, v) :: ms, h => by
    rw [pruneMembers] at h
    split at h
    · obtain ⟨m', hm', hm⟩ := exists_of_mem_pruneMembers h
      exact ⟨m', List.mem_cons_of_mem _ hm', hm⟩
    · rcases List.mem_cons.1 h with rfl | h
      · exact ⟨(key, v), List.mem_cons_self, _, rfl⟩
      · obtain ⟨m', hm', hm⟩ := exists_of_mem_pruneMembers h
        exact ⟨m', List.mem_cons_of_mem _ hm', hm⟩

/-- What is left is spelled as before. -/
theorem IsSpelled.prune (h : v.IsSpelled) (path : List String) :
    (v.prune removed path).IsSpelled := by
  induction h generalizing path with
  | null => exact .null
  | bool b => exact .bool b
  | number h => exact .number h
  | string h => exact .string h
  | array h => exact .array h
  | object hkeys hvalues ih =>
    refine .object (fun m hm => ?_) fun m hm => ?_
    · obtain ⟨m', hm', field, rfl⟩ := exists_of_mem_pruneMembers hm
      exact hkeys m' hm'
    · obtain ⟨m', hm', field, rfl⟩ := exists_of_mem_pruneMembers hm
      exact ih m' hm' field

/-! ## Records -/

theorem isSpelled_record {fields : List (String × JsonValue)}
    (h : ∀ f ∈ fields, f.2.IsSpelled) : (record fields).IsSpelled := by
  refine .object (fun m hm => ?_) fun m hm => ?_
  · obtain ⟨f, hf, rfl⟩ := List.mem_map.1 hm
    exact ⟨_, rfl⟩
  · obtain ⟨f, hf, rfl⟩ := List.mem_map.1 hm
    exact h f hf

/-- The members that a record has of its fields. -/
def membersOf (rows : List (String × Option JsonValue)) : List (String × JsonValue) :=
  rows.filterMap fun (name, given) => given.map (name, ·)

theorem keyName_flatMap_escape (name : String) : keyName (name.toList.flatMap escape) = name := by
  rw [keyName, unescape?_flatMap_escape, Option.getD_some, String.ofList_toList]

/-- What is left of a record is the record of the fields that are left. -/
theorem prune_record (removed : List String → Bool) (path : List String)
    (fields : List (String × JsonValue)) :
    prune removed path (record fields) =
      record (membersOf (fields.map fun (name, v) => (name, left? removed (path ++ [name]) v))) := by
  rw [record, prune, record]
  congr 1
  induction fields with
  | nil => rfl
  | cons f fields ih =>
    obtain ⟨name, v⟩ := f
    rw [List.map_cons, pruneMembers, keyName_flatMap_escape, ih]
    dsimp only
    rw [List.map_cons, membersOf, left?]
    split <;> rfl

/-- The keys of a record are the names of its fields. -/
theorem keyed?_record (fields : List (String × JsonValue)) :
    keyed? (fields.map fun (name, v) => (name.toList.flatMap escape, v)) =
      some (fields.map fun (name, v) => (name.toList, v)) := by
  induction fields with
  | nil => rfl
  | cons f fields ih =>
    obtain ⟨name, v⟩ := f
    rw [List.map_cons, keyed?_cons, unescape?_flatMap_escape, ih]
    rfl

/-- No member has a name that is not among the names of the fields. -/
theorem filter_membersOf_of_not_mem (h : name ∉ rows.map Prod.fst) :
    ((membersOf rows).map fun (name, v) => (name.toList, v)).filter (·.1 == name.toList) = [] := by
  rw [List.filter_eq_nil_iff]
  intro m hm
  obtain ⟨⟨key, v⟩, hkey, rfl⟩ := List.mem_map.1 hm
  obtain ⟨⟨key', given⟩, hrow, hgiven⟩ := List.mem_filterMap.1 hkey
  obtain ⟨w, -, heq⟩ := Option.map_eq_some_iff.1 hgiven
  obtain ⟨rfl, rfl⟩ := Prod.mk.inj heq
  intro hname
  rw [String.toList_injective (eq_of_beq hname)] at hrow
  exact h (List.mem_map.2 ⟨_, hrow, rfl⟩)

/-- The value of a field is what is given of it. -/
theorem fieldOf?_membersOf (h : (rows.map Prod.fst).Nodup) (hrow : (name, given) ∈ rows) :
    fieldOf? ((membersOf rows).map fun (name, v) => (name.toList, v)) name = some given := by
  obtain ⟨before, after, rfl⟩ := List.append_of_mem hrow
  rw [List.map_append, List.map_cons, List.nodup_middle, List.nodup_cons, List.mem_append,
    not_or] at h
  have hmembers : membersOf (before ++ (name, given) :: after) =
      membersOf before ++ (membersOf [(name, given)] ++ membersOf after) := by
    rw [membersOf, List.filterMap_append, ← List.singleton_append, List.filterMap_append]
    rfl
  rw [fieldOf?, hmembers, List.map_append, List.map_append, List.filter_append, List.filter_append,
    filter_membersOf_of_not_mem h.1.1, filter_membersOf_of_not_mem h.1.2]
  cases given with
  | none => rfl
  | some v => simp [membersOf]

theorem mapM_map_eq_some {α β γ : Type} {f : β → Option γ} {g : α → β} {k : α → γ} {l : List α}
    (h : ∀ a ∈ l, f (g a) = some (k a)) : (l.map g).mapM f = some (l.map k) := by
  induction l with
  | nil => rfl
  | cons a l ih =>
    rw [List.map_cons, List.mapM_cons, h a List.mem_cons_self,
      ih fun b hb => h b (List.mem_cons_of_mem a hb)]
    rfl

theorem fields?_membersOf (h : (rows.map Prod.fst).Nodup) :
    fields? (rows.map Prod.fst) (record (membersOf rows)) = some (rows.map Prod.snd) := by
  rw [record, fields?, keyed?_record]
  exact mapM_map_eq_some fun row hrow => fieldOf?_membersOf h hrow

/-- Reading a pruned record is reading the fields that are left. -/
theorem fields?_prune {α : Type} {fields : List (String × JsonValue)} {names : List String}
    {make : List (Option JsonValue) → Option α} (hnames : fields.map Prod.fst = names)
    (h : names.Nodup) :
    (fields? names (prune removed path (record fields))).bind make =
      make (fields.map fun (name, v) => left? removed (path ++ [name]) v) := by
  have hrows : (fields.map fun (name, v) => (name, left? removed (path ++ [name]) v)).map Prod.fst =
      names := by
    rw [List.map_map]
    exact hnames
  have hfields := fields?_membersOf (hrows.symm ▸ h)
  rw [hrows, List.map_map] at hfields
  rw [prune_record, hfields]
  rfl

end SceneScript.JsonValue
