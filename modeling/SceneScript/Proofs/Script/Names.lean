import SceneScript.Proofs.Script.Grammar
import SceneScript.Proofs.Script.Headings
import SceneScript.Proofs.Script.Profiles

/-!
# Names follow their last definition

However many items a reader has been asked for, what it knows is what the operations yielded so far
define (`profiles_ask`): an operation that defines a name adds it, and nothing else does, least of
all an error. So the profile that an argument line names is the newest of that name among the items
yielded, and a name that no item defines is reported (`names_follow_last_definition`).

A name that is defined came from a field, which is not empty, holds no blank and is no number
(`IsName`). So it is one field again wherever it is written in front of numbers, and stands for its
profile there.
-/

namespace SceneScript

namespace Reader

open Arguments (Accepts Numbers Profiled Rejects)
open Text (Parted)

/-- What a reader yields when it is asked `n` times for an item, and the reader behind that. -/
def ask (r : Reader) : Nat → List Item × Reader
  | 0 => ([], r)
  | n + 1 => ((r.ask n).1 ++ (r.ask n).2.next.1.toList, (r.ask n).2.next.2)

/-- A text that can name a profile. -/
def IsName (name : List Char) : Prop :=
  name ≠ [] ∧ (∀ c ∈ name, Text.isBlank c = false) ∧ Decimal.number? name = none

/-- How names stand when these items have been yielded and this is the reader behind them. -/
structure NamesFollow (items : List Item) (r : Reader) : Prop where
  /-- The names are those that the items define, each as it was defined last. -/
  table : r.profiles = .ofDefinitions (definitions items)
  /-- A solid has no profile when its fields are as many as its numbers, and the newest profile of a
  name when they are one more and the first is that name and no number. -/
  solid : ∀ op n, r.next.1 = some (.ok op) → op.keyword.solidCount? = some n →
    ∃ m text fields, Asks r op.keyword m text ∧ Parted text fields ∧
      (op.profile? = none ↔ fields.length = n) ∧
      ∀ k, op.profile? = some k ↔ ∃ name rest, fields = name :: rest ∧ rest.length = n ∧
        Decimal.number? name = none ∧
        (definitions items).reverse.lookup (String.ofList name) = some k
  /-- A name is reported when it stands in front of as many fields as there should be numbers,
  whatever these are, and no item has defined it. -/
  undefined : ∀ m name, r.next.1 = some (.error (.unknownConstants m name)) ↔
    ∃ k n text rest, Asks r k m text ∧ k.solidCount? = some n ∧ Parted text (name :: rest) ∧
      rest.length = n ∧ Decimal.number? name = none ∧
      ∀ v, .ok (.constants (String.ofList name) v) ∉ items
  /-- An error changes no name. -/
  error : ∀ e, r.next.1 = some (.error e) → r.next.2.profiles = r.profiles
  /-- A name can be written in front of the numbers of a solid, and stands for its profile there. -/
  usable : ∀ name v, r.profiles.lookup name = some v →
    IsName name.toList ∧ ∀ k n m line fields xs, k.solidCount? = some n → Parted line fields →
      Numbers fields xs → xs.length = n → Asks r k m (name.toList ++ ' ' :: line) →
      ∃ op, r.next.1 = some (.ok op) ∧ op.keyword = k ∧ op.profile? = some v ∧ op.numbers = xs

variable {r : Reader} {items : List Item} {op : Operation}
  {k : Keyword} {n : Nat} {name : List Char} {v : Reflectance}

/-! ## Names along the items -/

/-- The names after an item are those before it and what the item defines. -/
theorem profiles_next (r : Reader) :
    r.next.2.profiles = r.next.1.elim r.profiles r.profiles.afterItem := by
  cases hf : r.finished with
  | true => rw [next_of_finished hf]; rfl
  | false =>
    obtain ⟨used, rest, o, -, -, -, hn⟩ := next_takes hf
    rw [hn]
    cases o with
    | item | quit => rfl
    | ended | owing => cases r.failure <;> rfl

/-- What an item defines comes behind the definitions before it. -/
theorem ofDefinitions_concat (items : List Item) (item : Item) :
    ProfileTable.ofDefinitions (definitions (items ++ [item])) =
      (ProfileTable.ofDefinitions (definitions items)).afterItem item := by
  rw [definitions, List.filterMap_append, ProfileTable.ofDefinitions, List.foldl_append]
  cases item with
  | error e => rfl
  | ok op => cases op <;> rfl

/-- What a reader knows is what the items yielded so far define. -/
theorem profiles_ask (s : Stream) (n : Nat) :
    ((ofStream s).ask n).2.profiles =
      .ofDefinitions (definitions ((ofStream s).ask n).1) := by
  induction n with
  | zero => rfl
  | succ n ih =>
    rw [ask, profiles_next, ih]
    cases ((ofStream s).ask n).2.next.1 with
    | none => rw [Option.toList_none, List.append_nil, Option.elim_none]
    | some item => exact (ofDefinitions_concat _ item).symm

/-- A definition among items is an operation among them. -/
theorem mem_definitions {name : String} :
    (name, v) ∈ definitions items ↔ .ok (.constants name v) ∈ items := by
  rw [definitions, List.mem_filterMap]
  constructor
  · rintro ⟨item, hmem, h⟩
    cases item with
    | error e => cases h
    | ok op =>
      cases op with
      | constants name' v' =>
        cases h
        exact hmem
      | _ => cases h
  · exact fun hmem => ⟨_, hmem, rfl⟩

/-- What a name stands for is its newest definition. -/
theorem lookup_ask (s : Stream) (n : Nat) (name : String) :
    ((ofStream s).ask n).2.profiles.lookup name =
      (definitions ((ofStream s).ask n).1).reverse.lookup name := by
  rw [profiles_ask, ProfileTable.lookup_ofDefinitions]

/-- A name stands for nothing when no item defines it. -/
theorem lookup_reverse_eq_none_iff {name : String} :
    (definitions items).reverse.lookup name = none ↔ ∀ v, .ok (.constants name v) ∉ items := by
  rw [← ProfileTable.lookup_ofDefinitions, ProfileTable.lookup_ofDefinitions_eq_none_iff]
  exact forall_congr' fun v => not_congr mem_definitions

/-! ## What argument lines lead to -/

/-- An operation that comes of an argument line is what that line means. -/
theorem exists_accepts (h : r.next.1 = some (.ok op))
    (hk : ∃ read, op.keyword.command = .withArguments read) :
    ∃ m text, Asks r op.keyword m text ∧ Accepts r.profiles.lookup op.keyword text op := by
  obtain ⟨k, m, text, read, hasks, hk, hitem⟩ := exists_asks h hk
  cases hr : read r.profiles text with
  | error fault =>
    rw [hr] at hitem
    cases hitem
  | ok op' =>
    rw [hr] at hitem
    cases hitem
    have ha := (Arguments.read_eq_ok_iff hk).1 hr
    obtain rfl := ha.keyword_eq
    exact ⟨m, text, hasks, ha⟩

/-- A name is reported when the argument line that is asked for has it undefined. -/
theorem next_eq_unknownConstants_iff {m : Nat} :
    r.next.1 = some (.error (.unknownConstants m name)) ↔
      ∃ k text, Asks r k m text ∧ Rejects r.profiles.lookup k text (.undefined name) := by
  constructor
  · intro h
    obtain ⟨k, m', text, read, hasks, hk, hitem⟩ := exists_asks h trivial
    cases hr : read r.profiles text with
    | ok op =>
      rw [hr] at hitem
      cases hitem
    | error fault =>
      rw [hr] at hitem
      cases fault with
      | malformed p => cases hitem
      | undefined name' =>
        cases hitem
        exact ⟨k, text, hasks, (Arguments.read_eq_error_iff hk).1 hr⟩
  · rintro ⟨k, text, hasks, hr⟩
    obtain ⟨read, hk⟩ := hr.exists_command
    rw [hasks.next hk, hr.read_eq hk]
    rfl

/-- A name that an operation defines is one. -/
theorem isName_of_next {name : String} (h : r.next.1 = some (.ok (.constants name v))) :
    IsName name.toList := by
  obtain ⟨m, text, -, ha⟩ := exists_accepts h ⟨_, rfl⟩
  cases ha with
  | fields hp hm =>
    cases hm with
    | constants hf hn =>
      obtain ⟨hne, hblank⟩ := hp.forall_mem _ List.mem_cons_self
      rw [String.toList_ofList]
      exact ⟨hne, hblank, hf⟩

/-- Every name that items define is one. -/
theorem isName_of_mem_ask {s : Stream} {name : String}
    (h : .ok (.constants name v) ∈ ((ofStream s).ask n).1) : IsName name.toList := by
  induction n with
  | zero => cases h
  | succ n ih =>
    rcases List.mem_append.1 h with h | h
    · exact ih h
    · exact isName_of_next (Option.mem_toList.1 h)

/-- Every name that stands for something is one. -/
theorem isName_of_lookup {s : Stream} {name : String}
    (h : ((ofStream s).ask n).2.profiles.lookup name = some v) : IsName name.toList := by
  by_contra hnot
  have hnone : (definitions ((ofStream s).ask n).1).reverse.lookup name = none :=
    lookup_reverse_eq_none_iff.2 fun _ hmem => hnot (isName_of_mem_ask hmem)
  rw [← lookup_ask, h] at hnone
  cases hnone

/-- A name in front of fields is a field. -/
theorem parted_name {line : List Char} {fields : List (List Char)} (hname : IsName name)
    (h : Parted line fields) : Parted (name ++ ' ' :: line) (name :: fields) := by
  obtain ⟨hne, hblank, -⟩ := hname
  rw [← Text.words_eq_iff, Text.words_append_blank hne hblank (by decide), h.words_eq]

/-- Names follow their last definition. -/
theorem names_follow_last_definition (s : Stream) (n : Nat) :
    NamesFollow ((ofStream s).ask n).1 ((ofStream s).ask n).2 where
  table := profiles_ask s n
  solid := by
    intro op count h hc
    obtain ⟨m, text, hasks, ha⟩ := exists_accepts h (Arguments.exists_command_of_solid hc)
    -- the line means the operation at its own keyword, which decides the case
    generalize hk : op.keyword = k at hc hasks ha
    cases ha with
    | path => cases hc
    | fields hp hm =>
      obtain ⟨front, rest, rfl, hfront, -, hl⟩ := hm.exists_profiled hc
      refine ⟨m, text, _, hasks, hp, hfront.eq_none_iff hl, fun v => ?_⟩
      rw [hfront.eq_some_iff hl]
      simp only [lookup_ask]
  undefined := by
    intro m name
    rw [next_eq_unknownConstants_iff]
    constructor
    · rintro ⟨k, text, hasks, hr⟩
      cases hr with
      | fields hp hf =>
        cases hf with
        | undefined hc hname hl hnone =>
          exact ⟨k, _, text, _, hasks, hc, hp, hl, hname,
            lookup_reverse_eq_none_iff.1 (lookup_ask s n _ ▸ hnone)⟩
    · rintro ⟨k, count, text, rest, hasks, hc, hp, hl, hname, hnone⟩
      refine ⟨k, text, hasks, .fields hp (.undefined hc hname hl ?_)⟩
      rw [lookup_ask]
      exact lookup_reverse_eq_none_iff.2 hnone
  error := by
    intro e h
    rw [profiles_next, h]
    rfl
  usable := by
    intro name v hv
    have hname := isName_of_lookup hv
    refine ⟨hname, fun k count m line fields xs hc hp hn hl hasks => ?_⟩
    obtain ⟨read, hk⟩ := Arguments.exists_command_of_solid hc
    have hfront : Profiled ((ofStream s).ask n).2.profiles.lookup [name.toList] (some v) :=
      .named hname.2.2 (by rw [String.ofList_toList, hv])
    obtain ⟨op, hm, hv', hxs⟩ := Arguments.exists_means_solid hc hfront hn hl
    have hread := (Accepts.fields (parted_name hname hp) hm).read_eq hk
    refine ⟨op, ?_, hm.keyword_eq, hv', hxs⟩
    rw [hasks.next hk, hread]
    rfl

end Reader

end SceneScript
