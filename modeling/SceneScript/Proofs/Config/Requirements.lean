import Mathlib.Algebra.Group.Nat.Even
import SceneScript.Config
import SceneScript.Proofs.Text.Words

/-!
# What a configuration must keep

There are four things that a configuration must keep, and they are looked at in a fixed order
(`Config.requirements`). The first one that is not kept is the problem that is told, and a
configuration that keeps them all has none (`Config.answers_problem?`).

The number of cells is looked at in 64 bits. Two sides whose product has more bits have too many
cells anyway (`Config.any_cellCount?_iff`), so the product of the sides of a picture does not wrap.
-/

namespace SceneScript

/-- Nothing is left without the blanks at the ends just if there is nothing but blanks. -/
theorem Text.trim_eq_nil_iff {s : List Char} : trim s = [] ↔ ∀ c ∈ s, isBlank c = true := by
  rw [trim_eq_iff]
  constructor
  · rintro ⟨before, after, rfl, hbefore, hafter, -⟩ c hc
    rw [List.append_nil] at hc
    exact (List.mem_append.1 hc).elim (hbefore c) (hafter c)
  · intro h
    exact ⟨s, [], by simp, h, nofun, nofun, nofun⟩

namespace Config

variable {c : Config} {s : String} {width height : Nat} {p : Problem} {b : Bool}

/-! ## Requirements -/

/-- The text is more than blanks. -/
def IsNamed (s : String) : Prop := ∃ c ∈ s.toList, Text.isBlank c = false

/-- One thing that a configuration must keep, and what is wrong if it does not. -/
structure Requirement where
  holds : Prop
  problem : Problem

/-- What a configuration must keep, in the order in which it is looked at. -/
def requirements (c : Config) : List Requirement :=
  [⟨1 ≤ c.width ∧ 1 ≤ c.height, .noCells c.width c.height⟩,
    ⟨c.width * c.height ≤ 2 ^ 28, .tooManyCells c.width c.height⟩,
    ⟨2 ≤ c.tessellation.sphere ∧ 3 ≤ c.tessellation.torus ∧ 1 ≤ c.tessellation.curve,
      .tooCoarse c.tessellation⟩,
    ⟨c.output.backend = .external → IsNamed c.output.converter ∧ IsNamed c.output.viewer,
      .noPrograms⟩]

/-- It is the problem of the first requirement that is not kept. -/
def IsFirst (p : Problem) : List Requirement → Prop
  | [] => False
  | r :: rs => ¬ r.holds ∧ r.problem = p ∨ r.holds ∧ IsFirst p rs

/-- An answer is none if all requirements are kept, and else the first problem. -/
structure Answers (answer : Option Problem) (rs : List Requirement) : Prop where
  none_iff : answer = none ↔ ∀ r ∈ rs, r.holds
  some_iff (p : Problem) : answer = some p ↔ IsFirst p rs

theorem answers_nil : Answers none [] where
  none_iff := iff_of_true rfl nofun
  some_iff _ := iff_of_false nofun id

/-- A requirement is looked at before others. -/
theorem Answers.cons {holds : Prop} {rs : List Requirement} {answer : Option Problem}
    (hb : b = true ↔ ¬ holds) (h : Answers answer rs) :
    Answers (if b then some p else answer) (⟨holds, p⟩ :: rs) := by
  by_cases hr : holds
  · rw [if_neg fun hbad => hb.1 hbad hr]
    refine ⟨?_, fun q => ?_⟩
    · rw [h.none_iff, List.forall_mem_cons, and_iff_right hr]
    · rw [h.some_iff, IsFirst, and_iff_right hr, or_iff_right fun hnot => hnot.1 hr]
  · rw [if_pos (hb.2 hr)]
    refine ⟨iff_of_false nofun fun hall => hr (hall _ List.mem_cons_self), fun q => ?_⟩
    rw [IsFirst, and_iff_right hr, or_iff_left fun hnot => hr hnot.1, Option.some.injEq]

/-! ## What is looked at -/

theorem isBlankText_eq_false_iff : isBlankText s = false ↔ IsNamed s := by
  rw [isBlankText, ← Bool.not_eq_true, List.isEmpty_iff, Text.trim_eq_nil_iff, IsNamed]
  simp only [Classical.not_forall, exists_prop, Bool.not_eq_true]

/-- Sides whose product does not fit in 64 bits have too many cells. -/
theorem any_cellCount?_iff :
    (cellCount? width height).any (· ≤ maxCells) = true ↔ width * height ≤ 2 ^ 28 := by
  rw [cellCount?]
  split
  · exact decide_eq_true_iff
  · next hover =>
    have : UInt64.size = 2 ^ 64 := rfl
    exact iff_of_false nofun (by omega)

/-- The problem that is told is that of the first requirement that is not kept. -/
theorem answers_problem? (c : Config) : Answers c.problem? c.requirements := by
  rw [problem?, requirements]
  refine .cons ?_ (.cons ?_ (.cons ?_ (.cons ?_ answers_nil)))
  · rw [Bool.or_eq_true, decide_eq_true_eq, decide_eq_true_eq]
    omega
  · rw [Bool.not_eq_true', ← Bool.not_eq_true, any_cellCount?_iff]
  · rw [Bool.or_eq_true, Bool.or_eq_true, decide_eq_true_eq, decide_eq_true_eq, decide_eq_true_eq]
    dsimp only [leastSteps]
    omega
  · rw [Bool.and_eq_true, Bool.or_eq_true, decide_eq_true_eq]
    rw [← isBlankText_eq_false_iff, ← isBlankText_eq_false_iff, Classical.not_imp,
      Classical.not_and_iff_not_or_not, Bool.not_eq_false, Bool.not_eq_false]

/-! ## Pictures -/

/-- A configuration that can be drawn with: a picture has cells and not too many, round shapes close,
and whoever makes files of pictures is named. -/
structure IsUsable (c : Config) : Prop where
  width : 1 ≤ c.width
  height : 1 ≤ c.height
  cells : c.width * c.height ≤ 2 ^ 28
  sphere : 2 ≤ c.tessellation.sphere
  torus : 3 ≤ c.tessellation.torus
  curve : 1 ≤ c.tessellation.curve
  named : c.output.backend = .external → IsNamed c.output.converter ∧ IsNamed c.output.viewer

theorem isUsable_iff : c.IsUsable ↔ ∀ r ∈ c.requirements, r.holds := by
  simp only [requirements, List.forall_mem_cons]
  constructor
  · intro h
    exact ⟨⟨h.width, h.height⟩, h.cells, ⟨h.sphere, h.torus, h.curve⟩, h.named, nofun⟩
  · rintro ⟨⟨hwidth, hheight⟩, hcells, ⟨hsphere, htorus, hcurve⟩, hnamed, -⟩
    exact ⟨hwidth, hheight, hcells, hsphere, htorus, hcurve, hnamed⟩

theorem problem?_eq_none_iff : c.problem? = none ↔ c.IsUsable := by
  rw [isUsable_iff, (answers_problem? c).none_iff]

/-- The sides of a picture that can be drawn have a product that does not wrap. -/
theorem IsUsable.toNat_mul (h : c.IsUsable) :
    (UInt64.ofNat c.width * UInt64.ofNat c.height).toNat = c.width * c.height := by
  have hcells := h.cells
  have hwidth : c.width ≤ c.width * c.height := Nat.le_mul_of_pos_right _ h.height
  have hheight : c.height ≤ c.width * c.height := Nat.le_mul_of_pos_left _ h.width
  have hsize : UInt64.size = 2 ^ 64 := rfl
  rw [UInt64.toNat_mul, UInt64.toNat_ofNat_of_lt' (by omega), UInt64.toNat_ofNat_of_lt' (by omega),
    Nat.mod_eq_of_lt (by omega)]

/-- Which configurations can be drawn with, of sides and numbers of steps of any size. A
configuration has no problem just if it is usable, and the problem of any other one is that of the
first requirement that it does not keep. The product of the sides of a usable one does not wrap in 64
bits, and its picture has that many colors and as many depths, at least one of each. -/
theorem usable_configurations (c : Config) :
    (c.problem? = none ↔ c.IsUsable) ∧
      (∀ p, c.problem? = some p ↔ IsFirst p c.requirements) ∧
      (c.problem? = none →
        let cells := (Framebuffer.new c.width c.height c.background).cells.toList
        (UInt64.ofNat c.width * UInt64.ofNat c.height).toNat = c.width * c.height ∧
          (cells.map Cell.color).length = c.width * c.height ∧
          (cells.map Cell.depth).length = c.width * c.height ∧
          cells.map Cell.color ≠ [] ∧ cells.map Cell.depth ≠ []) := by
  refine ⟨problem?_eq_none_iff, (answers_problem? c).some_iff, fun h => ?_⟩
  have husable := problem?_eq_none_iff.1 h
  have hpos : 0 < c.width * c.height := Nat.mul_pos husable.width husable.height
  intro cells
  have hlength : cells.length = c.width * c.height := Vector.length_toList
  have hne : cells ≠ [] := List.ne_nil_of_length_pos (hlength ▸ hpos)
  rw [List.length_map, List.length_map]
  exact ⟨husable.toNat_mul, hlength, hlength, mt List.map_eq_nil_iff.1 hne,
    mt List.map_eq_nil_iff.1 hne⟩

/-- The largest square picture. A side more, and it is told that the picture is too large, also where
the product wraps to zero. -/
theorem usable_configurations_largest :
    let c : Config := { standard with width := 16384, height := 16384 }
    let wraps : Config := { standard with width := 2 ^ 32, height := 2 ^ 32 }
    c.problem? = none ∧
      (UInt64.ofNat c.width * UInt64.ofNat c.height).toNat = c.width * c.height ∧
      UInt64.ofNat wraps.width * UInt64.ofNat wraps.height = 0 ∧
      wraps.problem? = some (.tooManyCells (2 ^ 32) (2 ^ 32)) := by
  intro c wraps
  have hc : c.problem? = none := by decide
  refine ⟨hc, ((usable_configurations c).2.2 hc).1, by decide,
    ((usable_configurations wraps).2.1 _).2 (.inr ⟨⟨by decide, by decide⟩, .inl ⟨?_, rfl⟩⟩)⟩
  change ¬ 2 ^ 32 * 2 ^ 32 ≤ 2 ^ 28
  decide

end Config

end SceneScript
