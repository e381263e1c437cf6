import Mathlib.Data.List.Forall2
import SceneScript.Config.Reading
import SceneScript.Proofs.Json.Reordering

/-!
# Configurations do not depend on the order of members

The fields of a record are looked up by their names, so a reader of a record ignores the order of
members as soon as the readers of its fields do (`JsonValue.IgnoresOrder.record`). A configuration
is read field by field, down to values that are no objects, and ignores it at every depth
(`Config.ofValue_reorders`).
-/

namespace SceneScript

namespace JsonValue

variable {α : Type} {read : JsonValue → Option α} {ms ms' : List (List Char × JsonValue)}
  {v v' : JsonValue} {given given' : Option JsonValue}

/-- What is read does not depend on the order of members. -/
def IgnoresOrder (read : JsonValue → Option α) : Prop :=
  ∀ v v', Reorders v v' → read v = read v'

/-! ## Fields -/

theorem keyed?_cons (key : List Char) (v : JsonValue) (ms : List (List Char × JsonValue)) :
    keyed? ((key, v) :: ms) =
      (unescape? key).bind fun key => (keyed? ms).map fun ms => (key, v) :: ms := by
  rw [keyed?, List.mapM_cons, ← keyed?]
  dsimp only
  cases unescape? key with
  | none => rfl
  | some key => cases keyed? ms <;> rfl

theorem keyed?_append (ms ms' : List (List Char × JsonValue)) :
    keyed? (ms ++ ms') = (keyed? ms).bind fun ms => (keyed? ms').map (ms ++ ·) := by
  rw [keyed?, List.mapM_append, ← keyed?, ← keyed?]
  cases keyed? ms with
  | none => rfl
  | some ms => cases keyed? ms' <;> rfl

/-- The keys of members in another order are the keys in another order. -/
theorem keyed?_perm (h : ms.Perm ms') : Option.Rel List.Perm (keyed? ms) (keyed? ms') := by
  induction h with
  | nil => exact .some .nil
  | cons m h ih =>
    obtain ⟨key, v⟩ := m
    rw [keyed?_cons, keyed?_cons]
    revert ih
    generalize keyed? _ = x, keyed? _ = y
    cases unescape? key with
    | none => exact fun _ => .none
    | some key =>
      rintro (h | _)
      · exact .some (h.cons _)
      · exact .none
  | swap m m' ms =>
    obtain ⟨key, v⟩ := m
    obtain ⟨key', v'⟩ := m'
    rw [keyed?_cons, keyed?_cons, keyed?_cons, keyed?_cons]
    cases unescape? key <;> cases unescape? key' <;> cases keyed? ms
    case some.some.some => exact .some (.swap _ _ _)
    all_goals exact .none
  | trans h h' ih ih' =>
    revert ih ih'
    generalize keyed? _ = x, keyed? _ = y, keyed? _ = z
    rintro (h | _) (h' | _)
    · exact .some (h.trans h')
    · exact .none

/-- A field is found in any order of the members. -/
theorem fieldOf?_perm (h : ms.Perm ms') (name : String) :
    fieldOf? ms name = fieldOf? ms' name := by
  have hfilter := h.filter (·.1 == name.toList)
  unfold fieldOf?
  revert hfilter
  generalize ms.filter (·.1 == name.toList) = found, ms'.filter (·.1 == name.toList) = found'
  intro h
  match found, found', h with
  | [], found', h => rw [h.nil_eq]
  | [m], found', h => rw [List.singleton_perm.1 h]
  | m :: n :: found, [], h => exact absurd h.symm.nil_eq.symm nofun
  | m :: n :: found, [m'], h => exact absurd (List.perm_singleton.1 h) nofun
  | m :: n :: found, m' :: n' :: found', h => rfl

theorem fields?_perm (h : ms.Perm ms') (names : List String) :
    fields? names (object ms) = fields? names (object ms') := by
  have hkeyed := keyed?_perm h
  rw [fields?, fields?]
  revert hkeyed
  generalize keyed? ms = x, keyed? ms' = y
  rintro (h | _)
  · exact congrArg (fun f => names.mapM f) (funext (fieldOf?_perm h))
  · rfl

/-- Where one member is reordered, so is the field of its name, and no other one. -/
theorem fieldOf?_member (ms ms' : List (List Char × JsonValue)) (key : List Char)
    (h : Reorders v v') (name : String) :
    Option.Rel (Option.Rel Reorders) (fieldOf? (ms ++ (key, v) :: ms') name)
      (fieldOf? (ms ++ (key, v') :: ms') name) := by
  have same : ∀ x : Option (Option JsonValue), Option.Rel (Option.Rel Reorders) x x
    | none => .none
    | some none => .some .none
    | some (some v) => .some (.some (.refl v))
  unfold fieldOf?
  rw [List.filter_append, List.filter_append, List.filter_cons, List.filter_cons]
  by_cases hkey : (key == name.toList) = true
  · rw [if_pos hkey, if_pos hkey]
    generalize ms.filter (·.1 == name.toList) = before, ms'.filter (·.1 == name.toList) = after
    match before, after with
    | [], [] => exact .some (.some h)
    | [], _ :: _ => exact .none
    | [_], _ => exact .none
    | _ :: _ :: _, _ => exact .none
  · rw [if_neg hkey, if_neg hkey]
    exact same _

theorem mapM_rel {β γ : Type} {r : γ → γ → Prop} {f g : β → Option γ}
    (h : ∀ b, Option.Rel r (f b) (g b)) (bs : List β) :
    Option.Rel (fun cs cs' => cs.length = bs.length ∧ List.Forall₂ r cs cs') (bs.mapM f)
      (bs.mapM g) := by
  induction bs with
  | nil => exact .some ⟨rfl, .nil⟩
  | cons b bs ih =>
    have hb := h b
    rw [List.mapM_cons, List.mapM_cons]
    revert hb ih
    generalize f b = x, g b = y, bs.mapM f = xs, bs.mapM g = ys
    rintro (⟨hlength, hs⟩ | _) (h | _)
    · exact .some ⟨congrArg (· + 1) hlength, .cons h hs⟩
    all_goals exact .none

/-- Where one member is reordered, the fields are the same up to the order of theirs. -/
theorem fields?_member (ms ms' : List (List Char × JsonValue)) (key : List Char)
    (h : Reorders v v') (names : List String) :
    Option.Rel (fun fs fs' => fs.length = names.length ∧ List.Forall₂ (Option.Rel Reorders) fs fs')
      (fields? names (object (ms ++ (key, v) :: ms')))
      (fields? names (object (ms ++ (key, v') :: ms'))) := by
  rw [fields?, fields?, keyed?_append, keyed?_append, keyed?_cons, keyed?_cons]
  cases keyed? ms with
  | none => exact .none
  | some ms =>
    cases unescape? key with
    | none => exact .none
    | some key =>
      cases keyed? ms' with
      | none => exact .none
      | some ms' => exact mapM_rel (fieldOf?_member ms ms' key h) names

/-! ## Readers of fields -/

theorem orElse_reorders (hread : IgnoresOrder read) (h : Option.Rel Reorders given given')
    (standard : α) : orElse standard read given = orElse standard read given' := by
  cases h with
  | some h => exact hread _ _ h
  | none => rfl

theorem required_reorders (hread : IgnoresOrder read) (h : Option.Rel Reorders given given') :
    required read given = required read given' := by
  cases h with
  | some h => exact hread _ _ h
  | none => rfl

/-- A reader that takes no object has no members to look at. -/
theorem IgnoresOrder.of_object (h : ∀ ms, read (object ms) = none) : IgnoresOrder read := by
  intro v v' hv
  rcases hv.eq_or_object with rfl | ⟨ms, ms', rfl, rfl⟩
  · rfl
  · rw [h, h]

/-- A reader of the fields of a record ignores the order of them, and the order within each as far
as the readers of fields do. -/
theorem IgnoresOrder.record {names : List String} {make : List (Option JsonValue) → Option α}
    (h : ∀ {fs fs'}, fs.length = names.length → List.Forall₂ (Option.Rel Reorders) fs fs' →
      make fs = make fs') : IgnoresOrder fun v => (fields? names v).bind make := by
  intro v v' hv
  induction hv with
  | refl v => rfl
  | trans huv hvw ihuv ihvw => exact ihuv.trans ihvw
  | perm hperm => exact congrArg (Option.bind · make) (fields?_perm hperm names)
  | member ms ms' key hv ih =>
    have hfields := fields?_member ms ms' key hv names
    dsimp only
    revert hfields
    generalize fields? names _ = x, fields? names _ = y
    rintro (⟨hlength, hfields⟩ | _)
    · exact h hlength hfields
    · rfl

/-! ## Parts of a configuration -/

theorem ignoresOrder_natural? (bound : Nat) : IgnoresOrder (natural? bound) :=
  .of_object fun _ => rfl

theorem ignoresOrder_color? : IgnoresOrder color? :=
  .of_object fun _ => rfl

theorem ignoresOrder_vector? : IgnoresOrder vector? :=
  .of_object fun _ => rfl

theorem ignoresOrder_name? : IgnoresOrder name? :=
  .of_object fun _ => rfl

/-- A backend has at most one member. -/
theorem backend?_object_of_length (h : ms.length ≠ 1) : backend? (object ms) = none := by
  match ms, h with
  | [], _ => rfl
  | (_, v) :: _ :: _, _ => cases v <;> rfl

theorem ignoresOrder_backend? : IgnoresOrder backend? := by
  intro v v' h
  induction h with
  | refl v => rfl
  | trans huv hvw ihuv ihvw => exact ihuv.trans ihvw
  | @perm ms ms' h =>
    by_cases hlength : ms.length = 1
    · obtain ⟨m, rfl⟩ := List.length_eq_one_iff.1 hlength
      rw [List.singleton_perm.1 h]
    · rw [backend?_object_of_length hlength, backend?_object_of_length (h.length_eq ▸ hlength)]
  | member ms ms' key h ih =>
    by_cases hlength : ms.length + ms'.length = 0
    · -- the only member is null on both sides, or on neither
      obtain ⟨hms, hms'⟩ := Nat.add_eq_zero_iff.1 hlength
      rw [List.eq_nil_of_length_eq_zero hms, List.eq_nil_of_length_eq_zero hms']
      rcases h.eq_or_object with rfl | ⟨ms, ms', rfl, rfl⟩ <;> rfl
    · have hmembers (v : JsonValue) : (ms ++ (key, v) :: ms').length ≠ 1 := by
        rw [List.length_append, List.length_cons]
        omega
      rw [backend?_object_of_length (hmembers _), backend?_object_of_length (hmembers _)]

theorem ignoresOrder_reflectance? : IgnoresOrder reflectance? := by
  refine .record fun {fs fs'} hlength h => ?_
  match fs, hlength, h with
  | [_, _, _], _, .cons ha (.cons hd (.cons hs .nil)) =>
    dsimp only
    rw [required_reorders ignoresOrder_vector? ha, required_reorders ignoresOrder_vector? hd,
      required_reorders ignoresOrder_vector? hs]

theorem ignoresOrder_lamp? : IgnoresOrder lamp? := by
  refine .record fun {fs fs'} hlength h => ?_
  match fs, hlength, h with
  | [_, _], _, .cons hlocation (.cons hcolor .nil) =>
    dsimp only
    rw [required_reorders ignoresOrder_vector? hlocation, required_reorders ignoresOrder_color? hcolor]

theorem ignoresOrder_lighting? : IgnoresOrder lighting? := by
  refine .record fun {fs fs'} hlength h => ?_
  match fs, hlength, h with
  | [_, _, _, _], _, .cons hambient (.cons hlight (.cons hview (.cons hreflectance .nil))) =>
    dsimp only
    rw [orElse_reorders ignoresOrder_color? hambient, orElse_reorders ignoresOrder_lamp? hlight,
      orElse_reorders ignoresOrder_vector? hview,
      orElse_reorders ignoresOrder_reflectance? hreflectance]

theorem ignoresOrder_tessellation? : IgnoresOrder tessellation? := by
  refine .record fun {fs fs'} hlength h => ?_
  match fs, hlength, h with
  | [_, _, _], _, .cons hsphere (.cons htorus (.cons hcurve .nil)) =>
    dsimp only
    rw [word?, orElse_reorders (ignoresOrder_natural? _) hsphere,
      orElse_reorders (ignoresOrder_natural? _) htorus,
      orElse_reorders (ignoresOrder_natural? _) hcurve]

theorem ignoresOrder_output? : IgnoresOrder output? := by
  refine .record fun {fs fs'} hlength h => ?_
  match fs, hlength, h with
  | [_, _, _], _, .cons hbackend (.cons hconverter (.cons hviewer .nil)) =>
    dsimp only
    rw [orElse_reorders ignoresOrder_backend? hbackend, orElse_reorders ignoresOrder_name? hconverter,
      orElse_reorders ignoresOrder_name? hviewer]

theorem ignoresOrder_config? : IgnoresOrder config? := by
  refine .record fun {fs fs'} hlength h => ?_
  match fs, hlength with
  | [_, _, _, _, _, _, _], _ =>
    obtain _ | ⟨hwidth, _ | ⟨hheight, _ | ⟨hbackground, _ | ⟨hforeground, _ | ⟨hlighting,
      _ | ⟨htessellation, _ | ⟨houtput, _ | _⟩⟩⟩⟩⟩⟩⟩ := h
    dsimp only
    rw [word?, orElse_reorders (ignoresOrder_natural? _) hwidth,
      orElse_reorders (ignoresOrder_natural? _) hheight,
      orElse_reorders ignoresOrder_color? hbackground,
      orElse_reorders ignoresOrder_color? hforeground,
      orElse_reorders ignoresOrder_lighting? hlighting,
      orElse_reorders ignoresOrder_tessellation? htessellation,
      orElse_reorders ignoresOrder_output? houtput]

end JsonValue

/-- The order in which a configuration lists its members, and those of its parts, does not matter. -/
theorem Config.ofValue_reorders {v v' : JsonValue} (h : v.Reorders v') : ofValue v = ofValue v' := by
  rw [ofValue, ofValue, JsonValue.ignoresOrder_config? _ _ h]

end SceneScript
