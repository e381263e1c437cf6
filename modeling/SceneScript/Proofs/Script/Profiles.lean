import SceneScript.Script.Reader

/-!
# What names stand for

A name stands for what it was defined as last: a table is the fold of its definitions, and looking a
name up in it is looking for the newest definition of that name (`lookup_ofDefinitions`).
-/

namespace SceneScript

/-- The name that an operation defines, and its profile. -/
def Operation.definition? : Operation → Option (String × Reflectance)
  | constants name k => some (name, k)
  | _ => none

/-- The definitions among items, in order. -/
def definitions (items : List Item) : List (String × Reflectance) :=
  items.filterMap fun item => item.toOption.bind Operation.definition?

namespace ProfileTable

/-- The table of definitions that are made one after the other. -/
def ofDefinitions (defs : List (String × Reflectance)) : ProfileTable :=
  defs.foldl (fun t d => (t.define d.1 d.2).2) .empty

variable {t : ProfileTable} {defs : List (String × Reflectance)} {op : Operation}

/-- The first definition of a list is that of its name. -/
theorem lookup_cons (name : String) (k : Reflectance) (entries : List (String × Reflectance))
    (other : String) :
    ((name, k) :: entries).lookup other =
      if other = name then some k else entries.lookup other := by
  rw [List.lookup_cons]
  by_cases h : other = name
  · rw [if_pos h, h, beq_self_eq_true]
  · rw [if_neg h, beq_false_of_ne h]

/-- A definition that is put into a list is that of its name, and the others are as they were. -/
theorem lookup_insertEntry (name : String) (k : Reflectance)
    (entries : List (String × Reflectance)) (other : String) :
    (insertEntry name k entries).lookup other =
      if other = name then some k else entries.lookup other := by
  induction entries with
  | nil => exact lookup_cons name k [] other
  | cons entry entries ih =>
    obtain ⟨first, v⟩ := entry
    rw [insertEntry]
    split
    · next hf =>
      -- the definition takes the place of the one it replaces
      rw [lookup_cons, lookup_cons, hf]
      by_cases ho : other = name
      · rw [if_pos ho, if_pos ho]
      · rw [if_neg ho, if_neg ho, if_neg ho]
    · next hf =>
      split
      · exact lookup_cons name k _ other
      · rw [lookup_cons, lookup_cons, ih]
        by_cases ho : other = first
        · rw [if_pos ho, if_pos ho, if_neg (ho ▸ hf)]
        · rw [if_neg ho, if_neg ho]

/-- A definition changes what its name stands for and nothing else. -/
theorem lookup_define (t : ProfileTable) (name : String) (k : Reflectance) (other : String) :
    (t.define name k).2.lookup other = if other = name then some k else t.lookup other :=
  lookup_insertEntry name k t.entries other

/-- Where names stand for the first of their definitions in a list, a definition that an operation
makes comes before these. -/
theorem lookup_after (h : ∀ name, t.lookup name = defs.lookup name) (op : Operation)
    (name : String) : (t.after op).lookup name = (op.definition?.toList ++ defs).lookup name := by
  cases op with
  | constants other k =>
    change (t.define other k).2.lookup name = ((other, k) :: defs).lookup name
    rw [lookup_define, lookup_cons, h]
  | _ => exact h name

/-- A name stands for the newest of its definitions. -/
theorem lookup_ofDefinitions (defs : List (String × Reflectance)) (name : String) :
    (ofDefinitions defs).lookup name = defs.reverse.lookup name := by
  suffices h : ∀ t : ProfileTable, (defs.foldl (fun t d => (t.define d.1 d.2).2) t).lookup name =
      (defs.reverse.lookup name).or (t.lookup name) from
    (h .empty).trans Option.or_none
  induction defs with
  | nil => exact fun t => rfl
  | cons d defs ih =>
    intro t
    rw [List.foldl_cons, ih, List.reverse_cons, List.lookup_append, lookup_define,
      lookup_cons d.1 d.2 [], Option.or_assoc]
    split <;> rfl

/-- A name that is not defined stands for nothing, and no other does. -/
theorem lookup_ofDefinitions_eq_none_iff {name : String} :
    (ofDefinitions defs).lookup name = none ↔ ∀ k, (name, k) ∉ defs := by
  rw [lookup_ofDefinitions, List.lookup_eq_none_iff]
  constructor
  · intro h k hmem
    exact bne_iff_ne.1 (h (name, k) (List.mem_reverse.2 hmem)) rfl
  · rintro h ⟨other, k⟩ hmem
    refine bne_iff_ne.2 ?_
    rintro rfl
    exact h k (List.mem_reverse.1 hmem)

end ProfileTable

end SceneScript
