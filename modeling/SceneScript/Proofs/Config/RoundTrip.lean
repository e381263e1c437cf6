import SceneScript.Proofs.Config.Omission

/-!
# Configurations that read back

From what is left of a written configuration a configuration is read that has the standard values in
the places of what is not left (`Config.orStandard`). The fields of a lamp and of a profile have no
standard value: where one of them is removed from a record that is left, nothing is read
(`Config.IsMissing`).

Whole numbers and texts read back. A double need not, since it is read the quick way; the doubles of
the configuration are assumed to.
-/

namespace SceneScript

variable {removed : List String → Bool} {path : List String}

/-! ## Standard values for what is removed -/

/-- The lighting with the standard values of what is removed. -/
def Lighting.orStandard (removed : List String → Bool) (path : List String) (l : Lighting) :
    Lighting where
  ambient := if removed (path ++ ["ambient"]) then standard.ambient else l.ambient
  light := if removed (path ++ ["light"]) then standard.light else l.light
  view := if removed (path ++ ["view"]) then standard.view else l.view
  reflectance := if removed (path ++ ["reflectance"]) then standard.reflectance else l.reflectance

/-- The numbers of steps with the standard values of what is removed. -/
def Tessellation.orStandard (removed : List String → Bool) (path : List String)
    (t : Tessellation) : Tessellation where
  sphere := if removed (path ++ ["sphere_steps"]) then standard.sphere else t.sphere
  torus := if removed (path ++ ["torus_steps"]) then standard.torus else t.torus
  curve := if removed (path ++ ["curve_steps"]) then standard.curve else t.curve

/-- Where pictures go, with the standard values of what is removed. -/
def Delivery.orStandard (removed : List String → Bool) (path : List String) (o : Delivery) :
    Delivery where
  backend := if removed (path ++ ["backend"]) then standard.backend else o.backend
  converter := if removed (path ++ ["converter"]) then standard.converter else o.converter
  viewer := if removed (path ++ ["viewer"]) then standard.viewer else o.viewer

namespace Config

/-- The configuration with the standard values of what is removed. -/
def orStandard (removed : List String → Bool) (c : Config) : Config where
  width := if removed ["width"] then standard.width else c.width
  height := if removed ["height"] then standard.height else c.height
  background := if removed ["background"] then standard.background else c.background
  foreground := if removed ["foreground"] then standard.foreground else c.foreground
  lighting := if removed ["lighting"] then standard.lighting
    else c.lighting.orStandard removed ["lighting"]
  tessellation := if removed ["tessellation"] then standard.tessellation
    else c.tessellation.orStandard removed ["tessellation"]
  output := if removed ["output"] then standard.output else c.output.orStandard removed ["output"]

/-- The fields without a standard value. -/
def requiredFields : List (List String) :=
  [["lighting", "light", "location"], ["lighting", "light", "color"],
    ["lighting", "reflectance", "ambient"], ["lighting", "reflectance", "diffuse"],
    ["lighting", "reflectance", "specular"]]

/-- A field without a standard value is removed from a record that is left. -/
structure IsMissing (removed : List String → Bool) (field : List String) : Prop where
  required : field ∈ requiredFields
  isRemoved : removed field = true
  /-- None of the records that the field stands in is removed. -/
  isLeft : ∀ n, 0 < n → n < field.length → removed (field.take n) = false

/-- The configuration, if it can be drawn with. -/
def validated (c : Config) : Except ConfigError Config :=
  match c.problem? with
  | some p => .error (.invalid p)
  | none => .ok c

/-- The whole numbers of a configuration. -/
def words (c : Config) : List Nat :=
  [c.width, c.height, c.tessellation.sphere, c.tessellation.torus, c.tessellation.curve]

/-- The doubles of a configuration. -/
def doubles (c : Config) : List Float :=
  c.lighting.light.location.toList ++ c.lighting.view.toList ++ c.lighting.reflectance.toList

end Config

namespace JsonValue

variable {α : Type} {read : JsonValue → Option α} {v : JsonValue} {x : α} {standard : α}
  {field : List String} {n bound : Nat}

/-! ## Values that are no records -/

theorem natural?_ofNatural (h : n < bound) : natural? bound (ofNatural n) = some n := by
  have hdigits : (Decimal.digits n).all Decimal.isDigit = true :=
    List.all_eq_true.2 fun _ hc => Decimal.isDigit_of_mem_digits hc
  simp [natural?, ofNatural, hdigits, Decimal.natOfDigits_digits, Decimal.digits_ne_nil, h]

theorem color?_ofColor (c : Color) : color? (ofColor c) = some c := by
  have hchannel (n : UInt8) : natural? 256 (ofNatural n.toNat) = some n.toNat :=
    natural?_ofNatural n.toNat_lt
  simp [color?, ofColor, itemsOf?, Color.toList, hchannel]

/-- A vector reads back if its coordinates do. -/
theorem vector?_ofVector {a : Vec3 Float} (h : ∀ x ∈ a.toList, double? (ofDouble x) = some x) :
    vector? (ofVector a) = some a := by
  simp only [Vec3.toList, List.forall_mem_cons] at h
  simp [vector?, ofVector, itemsOf?, Vec3.toList, h]

theorem name?_ofText (s : String) : name? (ofText s.toList) = some s := by
  simp [name?, ofText, text?, unescape?_flatMap_escape]

theorem backend?_ofText (b : Backend) : backend? (ofText b.text.toList) = some b := by
  cases b <;> rfl

/-! ## Fields -/

/-- What a removed field reads as, if it may be left out. -/
theorem orElse_left? (standard : α) (read : JsonValue → Option α) (field : List String)
    (v : JsonValue) : orElse standard read (left? removed field v) =
      if removed field then some standard else read (prune removed field v) := by
  rw [left?]
  split <;> rfl

theorem orElse_left?_of_some (h : read (prune removed field v) = some x) :
    orElse standard read (left? removed field v) =
      some (if removed field then standard else x) := by
  rw [orElse_left?, h, apply_ite some]

/-- A removed field does not read, if it may not be left out. -/
theorem required_left?_of_some (h : read (prune removed field v) = some x) :
    required read (left? removed field v) = if removed field then none else some x := by
  rw [left?]
  split
  · rfl
  · exact h

/-! ## Records -/

/-- A field of a lamp is removed. -/
def lacksLamp (removed : List String → Bool) (path : List String) : Bool :=
  removed (path ++ ["location"]) || removed (path ++ ["color"])

/-- A field of a profile is removed. -/
def lacksReflectance (removed : List String → Bool) (path : List String) : Bool :=
  removed (path ++ ["ambient"]) || removed (path ++ ["diffuse"]) || removed (path ++ ["specular"])

/-- A field of the lamp or the profile of a lighting is removed, but not all of it. -/
def lacksLighting (removed : List String → Bool) (path : List String) : Bool :=
  !removed (path ++ ["light"]) && lacksLamp removed (path ++ ["light"]) ||
    !removed (path ++ ["reflectance"]) && lacksReflectance removed (path ++ ["reflectance"])

theorem lamp?_prune {l : Lamp} (h : ∀ x ∈ l.location.toList, double? (ofDouble x) = some x) :
    lamp? (prune removed path (ofLamp l)) = if lacksLamp removed path then none else some l := by
  refine (fields?_prune (by rfl) (by decide)).trans ?_
  simp only [List.map_cons, List.map_nil, Option.bind_eq_bind]
  rw [required_left?_of_some (vector?_ofVector h), required_left?_of_some (color?_ofColor l.color),
    lacksLamp]
  cases removed (path ++ ["location"]) <;> cases removed (path ++ ["color"]) <;> rfl

theorem reflectance?_prune {k : Reflectance} (h : ∀ x ∈ k.toList, double? (ofDouble x) = some x) :
    reflectance? (prune removed path (ofReflectance k)) =
      if lacksReflectance removed path then none else some k := by
  simp only [Reflectance.toList, List.forall_mem_append] at h
  refine (fields?_prune (by rfl) (by decide)).trans ?_
  simp only [List.map_cons, List.map_nil, Option.bind_eq_bind]
  rw [required_left?_of_some (vector?_ofVector h.1.1), required_left?_of_some (vector?_ofVector h.1.2),
    required_left?_of_some (vector?_ofVector h.2), lacksReflectance]
  cases removed (path ++ ["ambient"]) <;> cases removed (path ++ ["diffuse"]) <;>
    cases removed (path ++ ["specular"]) <;> rfl

theorem lighting?_prune {l : Lighting}
    (hlight : ∀ x ∈ l.light.location.toList, double? (ofDouble x) = some x)
    (hview : ∀ x ∈ l.view.toList, double? (ofDouble x) = some x)
    (hreflectance : ∀ x ∈ l.reflectance.toList, double? (ofDouble x) = some x) :
    lighting? (prune removed path (ofLighting l)) =
      if lacksLighting removed path then none else some (l.orStandard removed path) := by
  refine (fields?_prune (by rfl) (by decide)).trans ?_
  simp only [List.map_cons, List.map_nil, Option.bind_eq_bind]
  rw [orElse_left?_of_some (color?_ofColor l.ambient), orElse_left? _ lamp?, lamp?_prune hlight,
    orElse_left?_of_some (vector?_ofVector hview), orElse_left? _ reflectance?,
    reflectance?_prune hreflectance, lacksLighting, Lighting.orStandard]
  cases removed (path ++ ["light"]) <;> cases lacksLamp removed (path ++ ["light"]) <;>
    cases removed (path ++ ["reflectance"]) <;>
    cases lacksReflectance removed (path ++ ["reflectance"]) <;> rfl

theorem tessellation?_prune {t : Tessellation} (hsphere : t.sphere < wordBound)
    (htorus : t.torus < wordBound) (hcurve : t.curve < wordBound) :
    tessellation? (prune removed path (ofTessellation t)) = some (t.orStandard removed path) := by
  refine (fields?_prune (by rfl) (by decide)).trans ?_
  simp only [List.map_cons, List.map_nil, Option.bind_eq_bind]
  rw [word?, orElse_left?_of_some (natural?_ofNatural hsphere),
    orElse_left?_of_some (natural?_ofNatural htorus),
    orElse_left?_of_some (natural?_ofNatural hcurve)]
  rfl

theorem output?_prune (o : Delivery) :
    output? (prune removed path (ofOutput o)) = some (o.orStandard removed path) := by
  refine (fields?_prune (by rfl) (by decide)).trans ?_
  simp only [List.map_cons, List.map_nil, Option.bind_eq_bind]
  rw [orElse_left?_of_some (backend?_ofText o.backend),
    orElse_left?_of_some (name?_ofText o.converter), orElse_left?_of_some (name?_ofText o.viewer)]
  rfl

/-- From what is left of a configuration, it is read with the standard values for what is not, unless
a field without a standard value is missing. -/
theorem config?_prune {c : Config} (hwords : ∀ n ∈ c.words, n < wordBound)
    (hdoubles : ∀ x ∈ c.doubles, double? (ofDouble x) = some x) :
    config? (prune removed [] c.value) =
      if !removed ["lighting"] && lacksLighting removed ["lighting"] then none
      else some (c.orStandard removed) := by
  simp only [Config.words, List.forall_mem_cons] at hwords
  obtain ⟨hwidth, hheight, hsphere, htorus, hcurve, -⟩ := hwords
  simp only [Config.doubles, List.forall_mem_append] at hdoubles
  refine (fields?_prune (by rfl) (by decide)).trans ?_
  simp only [List.map_cons, List.map_nil, Option.bind_eq_bind, List.nil_append]
  rw [word?, orElse_left?_of_some (natural?_ofNatural hwidth),
    orElse_left?_of_some (natural?_ofNatural hheight),
    orElse_left?_of_some (color?_ofColor c.background),
    orElse_left?_of_some (color?_ofColor c.foreground),
    orElse_left?_of_some (tessellation?_prune hsphere htorus hcurve),
    orElse_left?_of_some (output?_prune c.output), orElse_left?,
    lighting?_prune hdoubles.1.1 hdoubles.1.2 hdoubles.2, Config.orStandard]
  cases removed ["lighting"] <;> cases lacksLighting removed ["lighting"] <;> rfl

/-! ## Spellings -/

theorem isSpelled_ofColor (c : Color) : (ofColor c).IsSpelled := by
  refine .array fun v hv => ?_
  obtain ⟨n, -, rfl⟩ := List.mem_map.1 hv
  exact .number (isNumber_digits _)

theorem isSpelled_ofVector {a : Vec3 Float} (h : ∀ x ∈ a.toList, x.isFinite = true) :
    (ofVector a).IsSpelled := by
  refine .array fun v hv => ?_
  obtain ⟨x, hx, rfl⟩ := List.mem_map.1 hv
  exact .number (isNumber_text (h x hx))

theorem isSpelled_ofNatural (n : Nat) : (ofNatural n).IsSpelled := .number (isNumber_digits n)

theorem isSpelled_ofText (s : List Char) : (ofText s).IsSpelled := .string ⟨s, rfl⟩

/-- A configuration with finite doubles is well spelled. -/
theorem isSpelled_value {c : Config} (h : ∀ x ∈ c.doubles, x.isFinite = true) :
    c.value.IsSpelled := by
  simp only [Config.doubles, Reflectance.toList, List.forall_mem_append] at h
  obtain ⟨⟨hlocation, hview⟩, ⟨hambient, hdiffuse⟩, hspecular⟩ := h
  have hlight : (ofLamp c.lighting.light).IsSpelled := isSpelled_record <| by
    simp [isSpelled_ofVector hlocation, isSpelled_ofColor]
  have hreflectance : (ofReflectance c.lighting.reflectance).IsSpelled := isSpelled_record <| by
    simp [isSpelled_ofVector hambient, isSpelled_ofVector hdiffuse, isSpelled_ofVector hspecular]
  have hlighting : (ofLighting c.lighting).IsSpelled := isSpelled_record <| by
    simp [isSpelled_ofColor, hlight, isSpelled_ofVector hview, hreflectance]
  have htessellation : (ofTessellation c.tessellation).IsSpelled := isSpelled_record <| by
    simp [isSpelled_ofNatural]
  have houtput : (ofOutput c.output).IsSpelled := isSpelled_record <| by simp [isSpelled_ofText]
  exact isSpelled_record <| by
    simp [isSpelled_ofNatural, isSpelled_ofColor, hlighting, htessellation, houtput]

end JsonValue

namespace Config

open JsonValue

variable {c : Config} {s : List Char}

theorem isMissing_iff {a b d : String} : IsMissing removed [a, b, d] ↔
    [a, b, d] ∈ requiredFields ∧ removed [a] = false ∧ removed [a, b] = false ∧
      removed [a, b, d] = true := by
  constructor
  · intro h
    exact ⟨h.required, h.isLeft 1 (by simp) (by simp), h.isLeft 2 (by simp) (by simp), h.isRemoved⟩
  · rintro ⟨hrequired, hone, htwo, hremoved⟩
    refine ⟨hrequired, hremoved, fun n hpos hlt => ?_⟩
    match n, hpos, hlt with
    | 1, _, _ => exact hone
    | 2, _, _ => exact htwo

/-- Nothing is missing but from the lighting. -/
theorem exists_isMissing_iff : (∃ field, IsMissing removed field) ↔
    (!removed ["lighting"] && lacksLighting removed ["lighting"]) = true := by
  simp only [lacksLighting, lacksLamp, lacksReflectance, Bool.and_eq_true, Bool.or_eq_true,
    Bool.not_eq_true', List.cons_append, List.nil_append]
  constructor
  · rintro ⟨field, h⟩
    have hfield := h.required
    simp only [requiredFields, List.mem_cons, List.not_mem_nil, or_false] at hfield
    rcases hfield with rfl | rfl | rfl | rfl | rfl
    all_goals
      obtain ⟨-, hlighting, hpart, hremoved⟩ := isMissing_iff.1 h
      simp [hlighting, hpart, hremoved]
  · rintro ⟨hlighting, ⟨hpart, h | h⟩ | ⟨hpart, (h | h) | h⟩⟩
    all_goals exact ⟨_, isMissing_iff.2 ⟨by decide, hlighting, hpart, h⟩⟩

/-- No value is a standard one if nothing is removed. -/
theorem orStandard_of_none (h : ∀ field, removed field = false) : c.orStandard removed = c := by
  simp [orStandard, Lighting.orStandard, Tessellation.orStandard, Delivery.orStandard, h]

/-! ## Reading what is left -/

theorem validated_of_none (h : c.problem? = none) : c.validated = .ok c := by
  rw [validated, h]

/-- What is left of a configuration is a configuration with standard values, as far as there are
any. -/
theorem ofValue_prune (hwords : ∀ n ∈ c.words, n < wordBound)
    (hdoubles : ∀ x ∈ c.doubles, double? (ofDouble x) = some x) :
    ofValue (prune removed [] c.value) =
      if !removed ["lighting"] && lacksLighting removed ["lighting"] then .error .malformed
      else (c.orStandard removed).validated := by
  rw [ofValue, config?_prune hwords hdoubles]
  generalize (!removed ["lighting"] && lacksLighting removed ["lighting"]) = lacks
  cases lacks <;> rfl

/-- What a text spells is read as any reordering of it. -/
theorem read_of_reorders {v v' : JsonValue} (hv : Reorders v v')
    (hs : JsonValue.read? s = some v') : Config.read s = ofValue v := by
  rw [Config.read, hs, ofValue_reorders hv]

/-- Reading what is left of a written configuration, in any order. Where a field without a standard
value is missing, the text is not one of a configuration. Else the configuration with the standard
values of what is removed is read, if it can be drawn with. If nothing is removed, a configuration
that can be drawn with reads back. The doubles of the configuration are assumed to read back. -/
theorem read_fills_in (c : Config) (hwords : ∀ n ∈ c.words, n < wordBound)
    (hfinite : ∀ x ∈ c.doubles, x.isFinite = true)
    (hdoubles : ∀ x ∈ c.doubles, double? (ofDouble x) = some x) :
    (∀ (removed : List String → Bool) (v : JsonValue), Reorders (prune removed [] c.value) v →
      JsonValue.read? v.text = some v ∧
        ∀ s, JsonValue.read? s = some v →
          ((∃ field, IsMissing removed field) → Config.read s = .error .malformed) ∧
          ((∀ field, ¬ IsMissing removed field) →
            Config.read s = (c.orStandard removed).validated)) ∧
      ∀ v, Reorders c.value v → c.problem? = none → Config.read v.text = .ok c := by
  have hspelled := isSpelled_value hfinite
  refine ⟨fun removed v hv => ⟨read?_text (hv.isSpelled (hspelled.prune [])), fun s hs => ?_⟩,
    fun v hv hc => ?_⟩
  · rw [read_of_reorders hv hs, ofValue_prune hwords hdoubles]
    refine ⟨fun hmissing => if_pos (exists_isMissing_iff.1 hmissing), fun hmissing => if_neg ?_⟩
    exact mt exists_isMissing_iff.2 (not_exists.2 hmissing)
  · have hnone : ∀ field : List String, (fun _ => false) field = false := fun _ => rfl
    rw [read_of_reorders hv (read?_text (hv.isSpelled hspelled)), ← prune_of_none hnone [] c.value,
      ofValue_prune hwords hdoubles, orStandard_of_none hnone]
    exact validated_of_none hc

/-- A configuration of which three values are left, in the reverse order; without the location of its
lamp; and as it is. -/
theorem read_fills_in_partial :
    let c : Config := { standard with
      width := 64, height := 48, lighting := { Lighting.standard with ambient := ⟨10, 20, 30⟩ },
      output := ⟨.native, "magick", ""⟩ }
    let removed : List String → Bool := fun field =>
      [["height"], ["background"], ["foreground"], ["lighting", "light"], ["lighting", "view"],
        ["lighting", "reflectance"], ["tessellation"], ["output", "converter"],
        ["output", "viewer"]].contains field
    let unlit : List String → Bool := fun field => field == ["lighting", "light", "location"]
    (∃ ms, prune removed [] c.value = object ms ∧
      Config.read (object ms.reverse).text = .ok { standard with
        width := 64, lighting := { Lighting.standard with ambient := ⟨10, 20, 30⟩ },
        output := ⟨.native, "convert", "display"⟩ }) ∧
      Config.read (prune unlit [] c.value).text = .error .malformed ∧
      Config.read c.write = .ok c := by
  intro c removed unlit
  have hwords : ∀ n ∈ c.words, n < wordBound := by decide
  have hfinite : ∀ x ∈ c.doubles, x.isFinite = true := by decide
  have hdoubles : ∀ x ∈ c.doubles, double? (ofDouble x) = some x := by decide +kernel
  obtain ⟨hleft, hwhole⟩ := read_fills_in c hwords hfinite hdoubles
  refine ⟨⟨_, rfl, ?_⟩, ?_, hwhole _ (.refl _) (by decide)⟩
  · obtain ⟨htext, hread⟩ := hleft removed _ (.perm (List.reverse_perm _).symm)
    have hmissing : ¬ ∃ field, IsMissing removed field := mt exists_isMissing_iff.1 (by decide)
    rw [(hread _ htext).2 (not_exists.1 hmissing)]
    exact validated_of_none (by decide)
  · obtain ⟨htext, hread⟩ := hleft unlit _ (.refl _)
    exact (hread _ htext).1 (exists_isMissing_iff.2 (by decide))

end Config

end SceneScript
