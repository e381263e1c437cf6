import Mathlib.Data.List.Forall2
import SceneScript.Proofs.Axis
import SceneScript.Proofs.Text.Words
import SceneScript.Script.Command

/-!
# The grammar of argument lines

What an argument line means is settled by its fields and by the names known so far: `Means` has one
rule for each keyword and `Fails` one for each thing that can be wrong. Every line of fields means
an operation or has a fault (`means_or_fails`), and a command reads the one or reports the other
(`read_eq_ok_iff`, `read_eq_error_iff`).

The readers of numbers are all alike (`ReadsNumbers`): the fields have to be as many as the numbers,
and then the first that is no number is reported.
-/

namespace SceneScript

/-- How many numbers the arguments of a keyword are, where they are nothing else. -/
def Keyword.numberCount? : Keyword → Option Nat
  | move | scale => some 3
  | circle => some 4
  | line => some 6
  | hermite | bezier => some 8
  | _ => none

/-- How many numbers a solid takes; the name of a profile may stand in front of them. -/
def Keyword.solidCount? : Keyword → Option Nat
  | box => some 6
  | sphere => some 4
  | torus => some 5
  | _ => none

namespace Arguments

/-! ## Fields and what they mean -/

/-- The fields are these numbers. -/
def Numbers : List Field → List Float → Prop :=
  List.Forall₂ fun field x => Decimal.number? field = some x

/-- What is wrong with fields that should be `count` numbers: they are not as many, or they are and
this is the first that is no number. -/
inductive Misfit (count : Nat) : List Field → ArgumentProblem → Prop
  | miscounted : fields.length ≠ count → Misfit count fields (.wrongCount count fields.length)
  | notANumber : (before ++ field :: rest).length = count → Numbers before xs →
      Decimal.number? field = none → Misfit count (before ++ field :: rest) (.notANumber field)

/-- What stands in front of the numbers of a solid: nothing, or a field that is no number and the
name of a profile. -/
inductive Profiled (known : String → Option Reflectance) : List Field → Option Reflectance → Prop
  | unnamed : Profiled known [] none
  | named : Decimal.number? name = none → known (String.ofList name) = some k →
      Profiled known [name] (some k)

/-- The operation that fields mean behind a keyword. -/
inductive Means (known : String → Option Reflectance) : Keyword → List Field → Operation → Prop
  | move : Numbers fields [x, y, z] → Means known .move fields (.move ⟨x, y, z⟩)
  | scale : Numbers fields [x, y, z] → Means known .scale fields (.scale ⟨x, y, z⟩)
  | rotate : (letter, axis) ∈ Axis.letters → Numbers fields [degrees] →
      Means known .rotate ([letter] :: fields) (.rotate axis degrees)
  | box : Profiled known front k → Numbers fields [x, y, z, w, h, d] →
      Means known .box (front ++ fields) (.box ⟨x, y, z⟩ ⟨w, h, d⟩ k)
  | sphere : Profiled known front k → Numbers fields [x, y, z, r] →
      Means known .sphere (front ++ fields) (.sphere ⟨x, y, z⟩ r k)
  | torus : Profiled known front k → Numbers fields [x, y, z, minor, major] →
      Means known .torus (front ++ fields) (.torus ⟨x, y, z⟩ minor major k)
  | circle : Numbers fields [x, y, z, r] → Means known .circle fields (.circle ⟨x, y, z⟩ r)
  | hermite : Numbers fields [x₀, y₀, x₁, y₁, u₀, v₀, u₁, v₁] →
      Means known .hermite fields (.hermite ⟨x₀, y₀⟩ ⟨x₁, y₁⟩ ⟨u₀, v₀⟩ ⟨u₁, v₁⟩)
  | bezier : Numbers fields [x₀, y₀, x₁, y₁, x₂, y₂, x₃, y₃] →
      Means known .bezier fields (.bezier ⟨x₀, y₀⟩ ⟨x₁, y₁⟩ ⟨x₂, y₂⟩ ⟨x₃, y₃⟩)
  | line : Numbers fields [x₀, y₀, z₀, x₁, y₁, z₁] →
      Means known .line fields (.line ⟨x₀, y₀, z₀⟩ ⟨x₁, y₁, z₁⟩)
  | constants : Decimal.number? name = none → Numbers fields [a, b, c, d, e, f, g, h, i] →
      Means known .constants (name :: fields)
        (.constants (String.ofList name) ⟨⟨a, b, c⟩, ⟨d, e, f⟩, ⟨g, h, i⟩⟩)

/-- What is wrong with fields behind a keyword. -/
inductive Fails (known : String → Option Reflectance) :
    Keyword → List Field → ArgumentFault → Prop
  | numbers : k.numberCount? = some n → Misfit n fields p → Fails known k fields (.malformed p)
  | noAxis : Fails known .rotate [] (.malformed .noAxis)
  | notAnAxis : (∀ letter axis, (letter, axis) ∈ Axis.letters → field ≠ [letter]) →
      Fails known .rotate (field :: fields) (.malformed (.notAnAxis field))
  | degrees : (letter, axis) ∈ Axis.letters → Misfit 1 fields p →
      Fails known .rotate ([letter] :: fields) (.malformed p)
  | undefined : k.solidCount? = some n → Decimal.number? name = none → fields.length = n →
      known (String.ofList name) = none → Fails known k (name :: fields) (.undefined name)
  | named : k.solidCount? = some n → Profiled known [name] c → fields.length = n →
      Misfit n fields p → Fails known k (name :: fields) (.malformed p)
  | unnamed : k.solidCount? = some n →
      (∀ name rest, fields = name :: rest → rest.length = n → Decimal.number? name ≠ none) →
      Misfit n fields p → Fails known k fields (.malformed p)
  | noName : (∀ name ∈ fields.head?, Decimal.number? name ≠ none) →
      Fails known .constants fields (.malformed .noName)
  | coefficients : Decimal.number? name = none → Misfit 9 fields p →
      Fails known .constants (name :: fields) (.malformed p)

/-- An argument line means an operation: its fields do, or it is a path. -/
inductive Accepts (known : String → Option Reflectance) : Keyword → List Char → Operation → Prop
  | fields : Text.Parted text fields → Means known k fields op → Accepts known k text op
  | path : Text.Trims text path → path ≠ [] →
      Accepts known .save text (.save (String.ofList path))

/-- An argument line has a fault: its fields do, or there is no path. -/
inductive Rejects (known : String → Option Reflectance) :
    Keyword → List Char → ArgumentFault → Prop
  | fields : Text.Parted text fields → Fails known k fields fault → Rejects known k text fault
  | noPath : Text.Trims text [] → Rejects known .save text (.malformed .noPath)

variable {known : String → Option Reflectance} {profiles : ProfileTable} {k : Keyword} {n : Nat}
  {fields rest : List Field} {field : Field} {text : List Char} {xs : List Float}
  {p : ArgumentProblem} {op : Operation} {fault : ArgumentFault}
  {read : ProfileTable → List Char → Except ArgumentFault Operation}

/-! ## Numbers -/

/-- Fields are numbers when each of them is read as one. -/
theorem mapM_number_eq_ok (h : Numbers fields xs) : fields.mapM number = .ok xs := by
  induction h with
  | nil => rfl
  | cons hx _ ih =>
    rw [List.mapM_cons, number, hx, ih]
    rfl

/-- The first field that is no number is reported. -/
theorem mapM_number_eq_error (h : Numbers fields xs) (hf : Decimal.number? field = none)
    (rest : List Field) : (fields ++ field :: rest).mapM number = .error (.notANumber field) := by
  induction h with
  | nil =>
    rw [List.nil_append, List.mapM_cons, number, hf]
    rfl
  | cons hx _ ih =>
    rw [List.cons_append, List.mapM_cons, number, hx, ih]
    rfl

/-- Fields are all numbers, or one of them is the first that is none. -/
theorem numbers_or_notANumber (fields : List Field) :
    (∃ xs, Numbers fields xs) ∨
      ∃ before field rest xs, fields = before ++ field :: rest ∧ Numbers before xs ∧
        Decimal.number? field = none := by
  induction fields with
  | nil => exact .inl ⟨[], .nil⟩
  | cons f fields ih =>
    cases hf : Decimal.number? f with
    | none => exact .inr ⟨[], f, fields, [], rfl, .nil, hf⟩
    | some x =>
      rcases ih with ⟨xs, h⟩ | ⟨before, field, rest, xs, rfl, hb, h⟩
      · exact .inl ⟨x :: xs, .cons hf h⟩
      · exact .inr ⟨f :: before, field, rest, x :: xs, rfl, .cons hf hb, h⟩

/-- Fields are as many numbers as they should be, or something is wrong with them. -/
theorem numbers_or_misfit (n : Nat) (fields : List Field) :
    (∃ xs, xs.length = n ∧ Numbers fields xs) ∨ ∃ p, Misfit n fields p := by
  by_cases hl : fields.length = n
  · rcases numbers_or_notANumber fields with ⟨xs, h⟩ | ⟨before, field, rest, xs, rfl, hb, h⟩
    · exact .inl ⟨xs, h.length_eq.symm.trans hl, h⟩
    · exact .inr ⟨_, .notANumber hl hb h⟩
  · exact .inr ⟨_, .miscounted hl⟩

/-- Three numbers from place `i` of a list on, as a point of space. -/
def spacePoint (xs : List Float) (i : Nat) : Vec3 Float :=
  ⟨xs.getD i 0, xs.getD (i + 1) 0, xs.getD (i + 2) 0⟩

/-- Two numbers from place `i` of a list on, as a point of the plane. -/
def planePoint (xs : List Float) (i : Nat) : Vec2 Float := ⟨xs.getD i 0, xs.getD (i + 1) 0⟩

/-- Fields are read as `n` numbers, of which something is made. -/
def ReadsNumbers {α : Type} (read : List Field → Except ArgumentProblem α) (n : Nat)
    (make : List Float → α) : Prop :=
  ∀ fields, read fields =
    if fields.length = n then make <$> fields.mapM number
    else .error (.wrongCount n fields.length)

section ReadsNumbers

variable {α : Type} {read : List Field → Except ArgumentProblem α} {make : List Float → α}

/-- The right numbers are read. -/
theorem ReadsNumbers.eq_ok (h : ReadsNumbers read n make) (hn : Numbers fields xs)
    (hl : xs.length = n) : read fields = .ok (make xs) := by
  rw [h, if_pos (hn.length_eq.trans hl), mapM_number_eq_ok hn]
  rfl

/-- What is wrong with the fields is reported. -/
theorem ReadsNumbers.eq_error (h : ReadsNumbers read n make) (hm : Misfit n fields p) :
    read fields = .error p := by
  cases hm with
  | miscounted hl => rw [h, if_neg hl]
  | notANumber hl hb hf =>
    rw [h, if_pos hl, mapM_number_eq_error hb hf]
    rfl

end ReadsNumbers

theorem readsNumbers_vector (make : Vec3 Float → Operation) :
    ReadsNumbers (vector make) 3 fun xs => make (spacePoint xs 0)
  | [x, y, z] => by simp [vector, triple, spacePoint]
  | [] | [_] | [_, _] | _ :: _ :: _ :: _ :: _ => by simp [vector, miscounted]

theorem readsNumbers_box (c : Option Reflectance) :
    ReadsNumbers (box c) 6 fun xs => .box (spacePoint xs 0) (spacePoint xs 3) c
  | [x, y, z, w, h, d] => by simp [box, triple, spacePoint]
  | [] | [_] | [_, _] | [_, _, _] | [_, _, _, _] | [_, _, _, _, _]
  | _ :: _ :: _ :: _ :: _ :: _ :: _ :: _ => by simp [box, miscounted]

theorem readsNumbers_sphere (c : Option Reflectance) :
    ReadsNumbers (sphere c) 4 fun xs => .sphere (spacePoint xs 0) (xs.getD 3 0) c
  | [x, y, z, r] => by simp [sphere, triple, spacePoint]
  | [] | [_] | [_, _] | [_, _, _] | _ :: _ :: _ :: _ :: _ :: _ => by simp [sphere, miscounted]

theorem readsNumbers_torus (c : Option Reflectance) :
    ReadsNumbers (torus c) 5 fun xs => .torus (spacePoint xs 0) (xs.getD 3 0) (xs.getD 4 0) c
  | [x, y, z, r, s] => by simp [torus, triple, spacePoint]
  | [] | [_] | [_, _] | [_, _, _] | [_, _, _, _] | _ :: _ :: _ :: _ :: _ :: _ :: _ => by
    simp [torus, miscounted]

theorem readsNumbers_circle :
    ReadsNumbers circle 4 fun xs => .circle (spacePoint xs 0) (xs.getD 3 0)
  | [x, y, z, r] => by simp [circle, triple, spacePoint]
  | [] | [_] | [_, _] | [_, _, _] | _ :: _ :: _ :: _ :: _ :: _ => by simp [circle, miscounted]

theorem readsNumbers_curve (make : Vec2 Float → Vec2 Float → Vec2 Float → Vec2 Float → Operation) :
    ReadsNumbers (curve make) 8 fun xs =>
      make (planePoint xs 0) (planePoint xs 2) (planePoint xs 4) (planePoint xs 6)
  | [a, b, c, d, e, f, g, h] => by simp [curve, pair, planePoint]
  | [] | [_] | [_, _] | [_, _, _] | [_, _, _, _] | [_, _, _, _, _] | [_, _, _, _, _, _]
  | [_, _, _, _, _, _, _] | _ :: _ :: _ :: _ :: _ :: _ :: _ :: _ :: _ :: _ => by
    simp [curve, miscounted]

theorem readsNumbers_line :
    ReadsNumbers line 6 fun xs => .line (spacePoint xs 0) (spacePoint xs 3)
  | [a, b, c, d, e, f] => by simp [line, triple, spacePoint]
  | [] | [_] | [_, _] | [_, _, _] | [_, _, _, _] | [_, _, _, _, _]
  | _ :: _ :: _ :: _ :: _ :: _ :: _ :: _ => by simp [line, miscounted]

theorem readsNumbers_profile :
    ReadsNumbers profile 9 fun xs => ⟨spacePoint xs 0, spacePoint xs 3, spacePoint xs 6⟩
  | [a, b, c, d, e, f, g, h, i] => by simp [profile, triple, spacePoint]
  | [] | [_] | [_, _] | [_, _, _] | [_, _, _, _] | [_, _, _, _, _] | [_, _, _, _, _, _]
  | [_, _, _, _, _, _, _] | [_, _, _, _, _, _, _, _]
  | _ :: _ :: _ :: _ :: _ :: _ :: _ :: _ :: _ :: _ :: _ => by simp [profile, miscounted]

/-- Behind the letter of an axis a number is read. -/
theorem readsNumbers_rotate {letter : Char} {a : Axis} (h : (letter, a) ∈ Axis.letters) :
    ReadsNumbers (fun fields => rotate ([letter] :: fields)) 1 fun xs =>
      .rotate a (xs.getD 0 0) := by
  have ha : axis? [letter] = some a := Axis.ofChar?_eq_some_iff.2 h
  intro fields
  match fields with
  | [degrees] => simp [rotate, ha]
  | [] | _ :: _ :: _ => simp [rotate, ha, miscounted]

/-- Behind a name the nine numbers of a profile are read. -/
theorem readsNumbers_constants {name : Field} (h : Decimal.number? name = none) :
    ReadsNumbers (fun fields => constants (name :: fields)) 9 fun xs =>
      .constants (String.ofList name) ⟨spacePoint xs 0, spacePoint xs 3, spacePoint xs 6⟩ := by
  have hn : isName name = true := Option.isNone_iff_eq_none.2 h
  intro fields
  dsimp only
  rw [constants.eq_def]
  dsimp only
  rw [if_pos hn, readsNumbers_profile]
  split
  · rw [Functor.map_map]
  · rfl

/-! ## Commands that take numbers -/

/-- A command that takes numbers only reads them and nothing else. -/
theorem exists_readsNumbers (hc : k.numberCount? = some n) (hk : k.command = .withArguments read) :
    ∃ operands make, read = plain operands ∧ ReadsNumbers operands n make := by
  cases k <;> cases hc <;> cases hk
  · exact ⟨_, _, rfl, readsNumbers_vector .move⟩
  · exact ⟨_, _, rfl, readsNumbers_vector .scale⟩
  · exact ⟨_, _, rfl, readsNumbers_circle⟩
  · exact ⟨_, _, rfl, readsNumbers_curve .hermite⟩
  · exact ⟨_, _, rfl, readsNumbers_curve .bezier⟩
  · exact ⟨_, _, rfl, readsNumbers_line⟩

/-- The command of a solid reads its numbers when it has read its profile. -/
theorem exists_readsNumbers_solid (hc : k.solidCount? = some n)
    (hk : k.command = .withArguments read) :
    ∃ operands, ∃ make : Option Reflectance → List Float → Operation,
      read = shape n operands ∧ ∀ c, ReadsNumbers (operands c) n (make c) := by
  cases k <;> cases hc <;> cases hk
  · exact ⟨_, _, rfl, readsNumbers_box⟩
  · exact ⟨_, _, rfl, readsNumbers_sphere⟩
  · exact ⟨_, _, rfl, readsNumbers_torus⟩

section Operands

variable {operands : List Field → Except ArgumentProblem Operation}
  {solid : Option Reflectance → List Field → Except ArgumentProblem Operation}
  {c : Option Reflectance}

/-- An argument line is read to what its fields are read to. -/
theorem plain_eq_ok (h : operands (Text.words text) = .ok op) :
    plain operands profiles text = .ok op := by
  rw [plain, h]
  rfl

/-- What is wrong with the fields is wrong with the argument line. -/
theorem plain_eq_error (h : operands (Text.words text) = .error p) :
    plain operands profiles text = .error (.malformed p) := by
  rw [plain, h]
  rfl

/-- The argument line of a solid is read to what the fields behind its profile are read to. -/
theorem shape_eq_ok (hc : named profiles n (Text.words text) = .ok (c, fields))
    (h : solid c fields = .ok op) : shape n solid profiles text = .ok op := by
  rw [shape, hc]
  exact congrArg (Except.mapError ArgumentFault.malformed) h

/-- What is wrong behind the profile of a solid is wrong with the argument line. -/
theorem shape_eq_error (hc : named profiles n (Text.words text) = .ok (c, fields))
    (h : solid c fields = .error p) : shape n solid profiles text = .error (.malformed p) := by
  rw [shape, hc]
  exact congrArg (Except.mapError ArgumentFault.malformed) h

end Operands

/-! ## The profile of a solid -/

/-- A known name in front of as many fields as there should be numbers is the profile's. -/
theorem named_name {name : Field} {c : Reflectance} (hf : Decimal.number? name = none)
    (hl : fields.length = n) (hc : profiles.lookup (String.ofList name) = some c) :
    named profiles n (name :: fields) = .ok (some c, fields) := by
  rw [named, isName, hf, if_pos (by simp [hl]), hc]

/-- A name in front of as many fields as there should be numbers has to be known. -/
theorem named_undefined {name : Field} (hf : Decimal.number? name = none) (hl : fields.length = n)
    (hc : profiles.lookup (String.ofList name) = none) :
    named profiles n (name :: fields) = .error (.undefined name) := by
  rw [named, isName, hf, if_pos (by simp [hl]), hc]

/-- Without a name in front of as many fields as there should be numbers there is no profile. -/
theorem named_unnamed
    (h : ∀ name rest, fields = name :: rest → rest.length = n → Decimal.number? name ≠ none) :
    named profiles n fields = .ok (none, fields) := by
  cases fields with
  | nil => rfl
  | cons name rest =>
    rw [named, if_neg]
    rw [Bool.and_eq_true, decide_eq_true_eq, isName, Option.isNone_iff_eq_none]
    exact fun hname => h name rest rfl hname.1 hname.2

/-- A number in front of others is no name. -/
theorem Numbers.head_ne_none (h : Numbers fields xs) :
    ∀ name rest, fields = name :: rest → Decimal.number? name ≠ none := by
  rintro name rest rfl
  cases h with
  | cons hx _ => exact fun hn => nomatch hn.symm.trans hx

/-- The fields of a solid are its profile and its numbers. -/
theorem named_profiled {front : List Field} {c : Option Reflectance}
    (h : Profiled profiles.lookup front c) (hn : Numbers fields xs) (hl : xs.length = n) :
    named profiles n (front ++ fields) = .ok (c, fields) := by
  cases h with
  | unnamed => exact named_unnamed fun name rest heq _ => hn.head_ne_none name rest heq
  | named hf hc => exact named_name hf (hn.length_eq.trans hl) hc

/-! ## Fields behind keywords -/

/-- Fields that mean an operation are read as it. -/
theorem Means.read_eq (h : Means profiles.lookup k (Text.words text) op)
    (hk : k.command = .withArguments read) : read profiles text = .ok op := by
  generalize hw : Text.words text = fields at h
  cases h with
  | move hn | scale hn =>
    cases hk
    exact plain_eq_ok (hw ▸ (readsNumbers_vector _).eq_ok hn rfl)
  | rotate ha hn =>
    cases hk
    exact plain_eq_ok (hw ▸ (readsNumbers_rotate ha).eq_ok hn rfl)
  | box hc hn =>
    cases hk
    exact shape_eq_ok (hw ▸ named_profiled hc hn rfl) ((readsNumbers_box _).eq_ok hn rfl)
  | sphere hc hn =>
    cases hk
    exact shape_eq_ok (hw ▸ named_profiled hc hn rfl) ((readsNumbers_sphere _).eq_ok hn rfl)
  | torus hc hn =>
    cases hk
    exact shape_eq_ok (hw ▸ named_profiled hc hn rfl) ((readsNumbers_torus _).eq_ok hn rfl)
  | circle hn =>
    cases hk
    exact plain_eq_ok (hw ▸ readsNumbers_circle.eq_ok hn rfl)
  | hermite hn | bezier hn =>
    cases hk
    exact plain_eq_ok (hw ▸ (readsNumbers_curve _).eq_ok hn rfl)
  | line hn =>
    cases hk
    exact plain_eq_ok (hw ▸ readsNumbers_line.eq_ok hn rfl)
  | constants hf hn =>
    cases hk
    exact plain_eq_ok (hw ▸ (readsNumbers_constants hf).eq_ok hn rfl)

/-- The fault of fields is reported. -/
theorem Fails.read_eq (h : Fails profiles.lookup k (Text.words text) fault)
    (hk : k.command = .withArguments read) : read profiles text = .error fault := by
  generalize hw : Text.words text = fields at h
  cases h with
  | numbers hc hm =>
    obtain ⟨operands, make, rfl, hr⟩ := exists_readsNumbers hc hk
    exact plain_eq_error (hw ▸ hr.eq_error hm)
  | noAxis =>
    cases hk
    exact plain_eq_error (hw ▸ rfl)
  | @notAnAxis field fields ha =>
    have hnone : axis? field = none := by
      match field with
      | [] | _ :: _ :: _ => rfl
      | [c] => exact Axis.ofChar?_eq_none_iff.2 fun a hmem => ha c a hmem rfl
    cases hk
    refine plain_eq_error ?_
    rw [hw, rotate.eq_def]
    dsimp only
    rw [hnone]
  | degrees ha hm =>
    cases hk
    exact plain_eq_error (hw ▸ (readsNumbers_rotate ha).eq_error hm)
  | undefined hc hf hl hnone =>
    obtain ⟨solid, make, rfl, hr⟩ := exists_readsNumbers_solid hc hk
    rw [shape, hw, named_undefined hf hl hnone]
    rfl
  | named hc hp hl hm =>
    obtain ⟨solid, make, rfl, hr⟩ := exists_readsNumbers_solid hc hk
    cases hp with
    | named hf hsome => exact shape_eq_error (hw ▸ named_name hf hl hsome) ((hr _).eq_error hm)
  | unnamed hc hun hm =>
    obtain ⟨solid, make, rfl, hr⟩ := exists_readsNumbers_solid hc hk
    refine shape_eq_error ?_ ((hr none).eq_error hm)
    rw [hw, named_unnamed hun]
  | noName hn =>
    cases hk
    refine plain_eq_error ?_
    rw [hw]
    cases fields with
    | nil => rfl
    | cons name rest =>
      rw [constants.eq_def]
      dsimp only
      rw [isName, if_neg fun h => hn name rfl (Option.isNone_iff_eq_none.1 h)]
  | coefficients hf hm =>
    cases hk
    exact plain_eq_error (hw ▸ (readsNumbers_constants hf).eq_error hm)

/-- The fields of a solid are its profile and its numbers, or have a fault. -/
theorem profiled_or_fails (known : String → Option Reflectance) (hc : k.solidCount? = some n)
    (fields : List Field) :
    (∃ front c rest xs, fields = front ++ rest ∧ Profiled known front c ∧ xs.length = n ∧
      Numbers rest xs) ∨ ∃ fault, Fails known k fields fault := by
  -- a name counts as one only in front of as many fields as there should be numbers
  by_cases hname : ∃ name rest, fields = name :: rest ∧ rest.length = n ∧
      Decimal.number? name = none
  · obtain ⟨name, rest, rfl, hl, hf⟩ := hname
    cases hk : known (String.ofList name) with
    | none => exact .inr ⟨_, .undefined hc hf hl hk⟩
    | some c =>
      rcases numbers_or_misfit n rest with ⟨xs, hxs, hn⟩ | ⟨p, hp⟩
      · exact .inl ⟨[name], some c, rest, xs, rfl, .named hf hk, hxs, hn⟩
      · exact .inr ⟨_, .named hc (.named hf hk) hl hp⟩
  · rcases numbers_or_misfit n fields with ⟨xs, hxs, hn⟩ | ⟨p, hp⟩
    · exact .inl ⟨[], none, fields, xs, rfl, .unnamed, hxs, hn⟩
    · exact .inr ⟨_, .unnamed hc (fun name rest h hl hf => hname ⟨name, rest, h, hl, hf⟩) hp⟩

/-- The profile and the numbers of a solid mean an operation. -/
theorem exists_means_solid {front : List Field} {c : Option Reflectance}
    (hk : k.solidCount? = some n) (hc : Profiled known front c) (hn : Numbers rest xs)
    (hl : xs.length = n) :
    ∃ op, Means known k (front ++ rest) op ∧ op.profile? = c ∧ op.numbers = xs := by
  cases k <;> cases hk
  · match xs, hl with
    | [x, y, z, w, h, d], _ => exact ⟨_, .box hc hn, rfl, rfl⟩
  · match xs, hl with
    | [x, y, z, r], _ => exact ⟨_, .sphere hc hn, rfl, rfl⟩
  · match xs, hl with
    | [x, y, z, r, s], _ => exact ⟨_, .torus hc hn, rfl, rfl⟩

/-- The fields of a solid are its profile and its numbers. -/
theorem Means.exists_profiled (h : Means known k fields op) (hk : k.solidCount? = some n) :
    ∃ front rest, fields = front ++ rest ∧ Profiled known front op.profile? ∧
      Numbers rest op.numbers ∧ rest.length = n := by
  cases h with
  | box hc hn | sphere hc hn | torus hc hn =>
    cases hk
    exact ⟨_, _, rfl, hc, hn, hn.length_eq⟩
  | _ => cases hk

/-- A solid has no profile when its fields are its numbers. -/
theorem Profiled.eq_none_iff {front : List Field} {c : Option Reflectance}
    (h : Profiled known front c) (hl : rest.length = n) :
    c = none ↔ (front ++ rest).length = n := by
  cases h with
  | unnamed => exact iff_of_true rfl hl
  | named =>
    refine iff_of_false nofun ?_
    rw [List.length_append, List.length_singleton, hl]
    omega

/-- A solid has the profile that is named in front of its numbers. -/
theorem Profiled.eq_some_iff {front : List Field} {c : Option Reflectance} {v : Reflectance}
    (h : Profiled known front c) (hl : rest.length = n) :
    c = some v ↔ ∃ name numbers, front ++ rest = name :: numbers ∧ numbers.length = n ∧
      Decimal.number? name = none ∧ known (String.ofList name) = some v := by
  cases h with
  | unnamed =>
    refine iff_of_false nofun ?_
    rintro ⟨name, numbers, rfl, hn, -⟩
    rw [List.length_cons] at hl
    omega
  | @named name c hf hc =>
    constructor
    · intro hv
      exact ⟨name, rest, rfl, hl, hf, hc.trans hv⟩
    · rintro ⟨name', numbers, heq, -, -, hv⟩
      obtain ⟨rfl, -⟩ := List.cons.inj heq
      exact hc.symm.trans hv

/-- Fields that should be numbers mean an operation if every list of so many numbers makes one. -/
theorem means_or_fails_numbers (known : String → Option Reflectance)
    (hc : k.numberCount? = some n) (fields : List Field)
    (hmeans : ∀ xs, xs.length = n → Numbers fields xs → ∃ op, Means known k fields op) :
    (∃ op, Means known k fields op) ∨ ∃ fault, Fails known k fields fault :=
  (numbers_or_misfit n fields).imp (fun ⟨xs, hl, hn⟩ => hmeans xs hl hn)
    fun ⟨_, hp⟩ => ⟨_, .numbers hc hp⟩

/-- Fields of a solid mean an operation, or have a fault. -/
theorem means_or_fails_solid (known : String → Option Reflectance) (hc : k.solidCount? = some n)
    (fields : List Field) :
    (∃ op, Means known k fields op) ∨ ∃ fault, Fails known k fields fault := by
  refine (profiled_or_fails known hc fields).imp_left ?_
  rintro ⟨front, c, rest, xs, rfl, hp, hl, hn⟩
  obtain ⟨op, h, -⟩ := exists_means_solid hc hp hn hl
  exact ⟨op, h⟩

/-- Fields behind a keyword that takes some mean an operation, or have a fault. -/
theorem means_or_fails (known : String → Option Reflectance)
    (hk : k.command = .withArguments read) (hs : k ≠ .save) (fields : List Field) :
    (∃ op, Means known k fields op) ∨ ∃ fault, Fails known k fields fault := by
  cases k with
  | push | pop | clear | display | quit => cases hk
  | save => exact absurd rfl hs
  | move =>
    exact means_or_fails_numbers known rfl fields fun
      | [x, y, z], _, hn => ⟨_, .move hn⟩
  | scale =>
    exact means_or_fails_numbers known rfl fields fun
      | [x, y, z], _, hn => ⟨_, .scale hn⟩
  | circle =>
    exact means_or_fails_numbers known rfl fields fun
      | [x, y, z, r], _, hn => ⟨_, .circle hn⟩
  | line =>
    exact means_or_fails_numbers known rfl fields fun
      | [a, b, c, d, e, f], _, hn => ⟨_, .line hn⟩
  | hermite =>
    exact means_or_fails_numbers known rfl fields fun
      | [a, b, c, d, e, f, g, h], _, hn => ⟨_, .hermite hn⟩
  | bezier =>
    exact means_or_fails_numbers known rfl fields fun
      | [a, b, c, d, e, f, g, h], _, hn => ⟨_, .bezier hn⟩
  | box | sphere | torus => exact means_or_fails_solid known rfl fields
  | rotate =>
    cases fields with
    | nil => exact .inr ⟨_, .noAxis⟩
    | cons field rest =>
      by_cases ha : ∃ letter axis, (letter, axis) ∈ Axis.letters ∧ field = [letter]
      · obtain ⟨letter, axis, ha, rfl⟩ := ha
        rcases numbers_or_misfit 1 rest with ⟨xs, hl, hn⟩ | ⟨p, hp⟩
        · match xs, hl with
          | [x], _ => exact .inl ⟨_, .rotate ha hn⟩
        · exact .inr ⟨_, .degrees ha hp⟩
      · exact .inr ⟨_, .notAnAxis fun letter axis hmem h => ha ⟨letter, axis, hmem, h⟩⟩
  | constants =>
    cases fields with
    | nil => exact .inr ⟨_, .noName nofun⟩
    | cons name rest =>
      cases hf : Decimal.number? name with
      | some x =>
        refine .inr ⟨_, .noName fun name' h hnone => ?_⟩
        rw [← Option.some.inj h, hf] at hnone
        cases hnone
      | none =>
        rcases numbers_or_misfit 9 rest with ⟨xs, hl, hn⟩ | ⟨p, hp⟩
        · match xs, hl with
          | [a, b, c, d, e, f, g, h, i], _ => exact .inl ⟨_, .constants hf hn⟩
        · exact .inr ⟨_, .coefficients hf hp⟩

/-! ## Argument lines -/

/-- Fields mean an operation of the keyword. -/
theorem Means.keyword_eq (h : Means known k fields op) : op.keyword = k := by
  cases h <;> rfl

/-- An argument line means an operation of the keyword. -/
theorem Accepts.keyword_eq (h : Accepts known k text op) : op.keyword = k := by
  cases h with
  | fields _ hm => exact hm.keyword_eq
  | path => rfl

/-- A keyword that takes numbers has an argument line. -/
theorem exists_command_of_numbers (h : k.numberCount? = some n) :
    ∃ read, k.command = .withArguments read := by
  cases k <;> cases h <;> exact ⟨_, rfl⟩

/-- A solid has an argument line. -/
theorem exists_command_of_solid (h : k.solidCount? = some n) :
    ∃ read, k.command = .withArguments read := by
  cases k <;> cases h <;> exact ⟨_, rfl⟩

/-- Only a keyword that has an argument line behind it is accepted with one. -/
theorem Accepts.exists_command (h : Accepts known k text op) :
    ∃ read, k.command = .withArguments read := by
  cases h with
  | fields _ hm => cases hm <;> exact ⟨_, rfl⟩
  | path => exact ⟨_, rfl⟩

/-- Only a keyword that has an argument line behind it has a fault in one. -/
theorem Rejects.exists_command (h : Rejects known k text fault) :
    ∃ read, k.command = .withArguments read := by
  cases h with
  | fields _ hf =>
    cases hf with
    | numbers hc => exact exists_command_of_numbers hc
    | undefined hc | named hc | unnamed hc => exact exists_command_of_solid hc
    | _ => exact ⟨_, rfl⟩
  | noPath => exact ⟨_, rfl⟩

/-- An argument line that means an operation is read as it. -/
theorem Accepts.read_eq (h : Accepts profiles.lookup k text op)
    (hk : k.command = .withArguments read) : read profiles text = .ok op := by
  cases h with
  | fields hp hm => exact Means.read_eq (hp.words_eq ▸ hm) hk
  | @path text path ht hne =>
    cases hk
    have hsave : save text = .ok (.save (String.ofList path)) := by
      rw [save.eq_def, ht.trim_eq]
      cases path with
      | nil => exact absurd rfl hne
      | cons c path => rfl
    exact congrArg (Except.mapError ArgumentFault.malformed) hsave

/-- The fault of an argument line is reported. -/
theorem Rejects.read_eq (h : Rejects profiles.lookup k text fault)
    (hk : k.command = .withArguments read) : read profiles text = .error fault := by
  cases h with
  | fields hp hm => exact Fails.read_eq (hp.words_eq ▸ hm) hk
  | noPath ht =>
    cases hk
    have hsave : save text = .error .noPath := by rw [save.eq_def, ht.trim_eq]
    exact congrArg (Except.mapError ArgumentFault.malformed) hsave

/-- An argument line means an operation, or has a fault. -/
theorem accepts_or_rejects (known : String → Option Reflectance)
    (hk : k.command = .withArguments read) (text : List Char) :
    (∃ op, Accepts known k text op) ∨ ∃ fault, Rejects known k text fault := by
  have hp := Text.parted_words text
  have ht := Text.trims_trim text
  by_cases hs : k = .save
  · subst hs
    by_cases hnil : Text.trim text = []
    · exact .inr ⟨_, .noPath (hnil ▸ ht)⟩
    · exact .inl ⟨_, .path ht hnil⟩
  · exact (means_or_fails known hk hs _).imp (fun ⟨_, h⟩ => ⟨_, .fields hp h⟩)
      fun ⟨_, h⟩ => ⟨_, .fields hp h⟩

/-- A command reads just the argument lines that mean an operation, as it. -/
theorem read_eq_ok_iff (hk : k.command = .withArguments read) :
    read profiles text = .ok op ↔ Accepts profiles.lookup k text op := by
  refine ⟨fun h => ?_, fun h => h.read_eq hk⟩
  rcases accepts_or_rejects profiles.lookup hk text with ⟨op', ha⟩ | ⟨fault, hr⟩
  · rw [ha.read_eq hk] at h
    cases h
    exact ha
  · rw [hr.read_eq hk] at h
    cases h

/-- A command reports just the faults of argument lines. -/
theorem read_eq_error_iff (hk : k.command = .withArguments read) :
    read profiles text = .error fault ↔ Rejects profiles.lookup k text fault := by
  refine ⟨fun h => ?_, fun h => h.read_eq hk⟩
  rcases accepts_or_rejects profiles.lookup hk text with ⟨op', ha⟩ | ⟨fault', hr⟩
  · rw [ha.read_eq hk] at h
    cases h
  · rw [hr.read_eq hk] at h
    cases h
    exact hr

end Arguments

end SceneScript
