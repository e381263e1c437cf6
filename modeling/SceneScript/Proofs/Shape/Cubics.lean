import Mathlib.Algebra.Polynomial.Derivative
import Mathlib.RingTheory.Polynomial.Bernstein
import Mathlib.Tactic.ComputeDegree
import SceneScript.Proofs.Raster.Exact
import SceneScript.Shape.Curve

/-!
# Traced cubics

In exact arithmetic the coordinates of a curve are polynomials of its parameter, and tracing it
joins their points at equal steps (`Traces`). A Bézier curve has the Bernstein polynomials of its
control points for coordinates (`eval_bernstein`), and a Hermite curve has the cubics that take the
given values and slopes at both ends (`interpolates_hermiteCubic`). The two kinds tell the same
curves: the slopes of a Bézier curve at its ends are three times the first and the last side of its
control polygon (`Cubic.bezier_eq_hermite`).
-/

namespace SceneScript

theorem Vec2.eq_of_coordinates {α : Type} {p q : Vec2 α} (hx : p.x = q.x) (hy : p.y = q.y) :
    p = q := by
  cases p
  cases q
  simp_all

namespace Edge

variable {P : Type}

/-- As many edges join points in a row as there are points behind the first. -/
theorem length_chain (ps : List P) : (chain ps).length = ps.length - 1 := by
  simp [chain]

/-- The edges that join points in a row, by the places of the points. -/
theorem getElem?_chain_map_range (f : Nat → P) {n k : Nat} (hk : k < n) :
    (chain ((List.range (n + 1)).map f))[k]? = some ⟨f k, f (k + 1)⟩ := by
  have hstart : ((List.range (n + 1)).map f)[k]? = some (f k) := by
    simp [show k < n + 1 by omega]
  have hfinish : ((List.range (n + 1)).map f).tail[k]? = some (f (k + 1)) := by
    simp [hk]
  rw [chain, List.getElem?_zipWith, hstart, hfinish]

/-- Each edge of a chain starts where the one before it finishes. -/
theorem isChain_chain (ps : List P) : (chain ps).IsChain fun e e' => e.finish = e'.start := by
  induction ps with
  | nil => exact .nil
  | cons p ps ih =>
    cases ps with
    | nil => exact .nil
    | cons q ps =>
      cases ps with
      | nil => exact .singleton _
      | cons r ps => exact .cons_cons rfl ih

end Edge

namespace Shape

open Polynomial

/-! ## Tracing -/

/-- The point of the picture's plane at a parameter of the curve with the given coordinates. -/
def curvePoint (x y : ℚ[X]) (t : ℚ) : Vec3 ℚ := ⟨x.eval t, y.eval t, 0⟩

/-- Edges follow the curve with the given coordinates, in `n` equal steps from the parameter `0` to
the parameter `1`, without a gap. -/
structure Traces (x y : ℚ[X]) (n : Nat) (es : List (Edge (Vec3 ℚ))) : Prop where
  length : es.length = n
  edge : ∀ k < n, es[k]? = some ⟨curvePoint x y (k / n), curvePoint x y ((k + 1) / n)⟩
  joined : es.IsChain fun e e' => e.finish = e'.start

/-- A curve is traced along any polynomials that its points are the values of. -/
theorem Cubic.traces {k : Cubic ℚ} {x y : ℚ[X]} (hx : ∀ t, (k.point t).x = x.eval t)
    (hy : ∀ t, (k.point t).y = y.eval t) (n : Nat) : Traces x y n (k.trace n) where
  length := by
    rw [trace, Edge.length_chain, List.length_map, List.length_range, Nat.add_sub_cancel]
  edge := by
    intro i hi
    have hpoint (t : ℚ) : (k.point t).atHeight (@OfNat.ofNat ℚ 0 Scalar.literal) =
        curvePoint x y t := by
      rw [Vec2.atHeight, curvePoint, hx, hy, Exact.literal_zero]
    rw [trace, Edge.getElem?_chain_map_range _ hi, hpoint, hpoint]
    simp only [Exact.ofInt_eq, Int.cast_natCast]
    push_cast
    rfl
  joined := Edge.isChain_chain _

/-! ## Bézier curves -/

/-- The cubic whose Bernstein coefficients are the given four. -/
noncomputable def bernstein (c₀ c₁ c₂ c₃ : ℚ) : ℚ[X] :=
  C c₀ * bernsteinPolynomial ℚ 3 0 + C c₁ * bernsteinPolynomial ℚ 3 1 +
    C c₂ * bernsteinPolynomial ℚ 3 2 + C c₃ * bernsteinPolynomial ℚ 3 3

/-- The values are means of the coefficients, weighted by the terms of `((1 - t) + t) ^ 3`. -/
theorem eval_bernstein (c₀ c₁ c₂ c₃ t : ℚ) : (bernstein c₀ c₁ c₂ c₃).eval t =
    c₀ * (1 - t) ^ 3 + c₁ * (3 * t * (1 - t) ^ 2) + c₂ * (3 * t ^ 2 * (1 - t)) + c₃ * t ^ 3 := by
  simp [bernstein, bernsteinPolynomial, Nat.choose]

/-- The coefficients of a Bézier curve are those of its Bernstein polynomials. -/
theorem Cubic.point_bezier (p0 p1 p2 p3 : Vec2 ℚ) (t : ℚ) :
    (Cubic.bezier p0 p1 p2 p3).point t =
      ⟨(bernstein p0.x p1.x p2.x p3.x).eval t, (bernstein p0.y p1.y p2.y p3.y).eval t⟩ := by
  have hcoefficients (c₀ c₁ c₂ c₃ : ℚ) :
      t * (t * (t * (-c₀ + 3 * c₁ - 3 * c₂ + c₃) + (3 * c₀ - 6 * c₁ + 3 * c₂)) +
        (-3 * c₀ + 3 * c₁)) + c₀ = (bernstein c₀ c₁ c₂ c₃).eval t := by
    rw [eval_bernstein]
    ring
  exact Vec2.eq_of_coordinates (hcoefficients p0.x p1.x p2.x p3.x)
    (hcoefficients p0.y p1.y p2.y p3.y)

theorem traces_bezier (p0 p1 p2 p3 : Vec2 ℚ) (n : Nat) :
    Traces (bernstein p0.x p1.x p2.x p3.x) (bernstein p0.y p1.y p2.y p3.y) n
      (bezier p0 p1 p2 p3 n) :=
  Cubic.traces (fun t => by rw [Cubic.point_bezier]) (fun t => by rw [Cubic.point_bezier]) n

/-! ## Hermite curves -/

/-- A cubic takes a value and a slope at each end of the parameters. -/
structure Interpolates (x : ℚ[X]) (start finish startSlope finishSlope : ℚ) : Prop where
  degree : x.natDegree ≤ 3
  start : x.eval 0 = start
  finish : x.eval 1 = finish
  startSlope : x.derivative.eval 0 = startSlope
  finishSlope : x.derivative.eval 1 = finishSlope

/-- The cubic with values `c₀` and `c₁` and slopes `d₀` and `d₁` at the ends: of each of these four
it is the multiple of a cubic that has one there and zero for the other three. -/
noncomputable def hermiteCubic (c₀ c₁ d₀ d₁ : ℚ) : ℚ[X] :=
  C c₀ * ((1 + 2 * X) * (1 - X) ^ 2) + C c₁ * (X ^ 2 * (3 - 2 * X)) +
    C d₀ * (X * (1 - X) ^ 2) + C d₁ * (X ^ 2 * (X - 1))

theorem interpolates_hermiteCubic (c₀ c₁ d₀ d₁ : ℚ) :
    Interpolates (hermiteCubic c₀ c₁ d₀ d₁) c₀ c₁ d₀ d₁ where
  degree := by
    rw [hermiteCubic]
    compute_degree
  start := by simp [hermiteCubic]
  finish := by norm_num [hermiteCubic]
  startSlope := by norm_num [hermiteCubic, derivative_pow]
  finishSlope := by norm_num [hermiteCubic, derivative_pow]

/-- The coefficients of a Hermite curve are those of the cubics between its ends. -/
theorem Cubic.point_hermite (p0 p1 r0 r1 : Vec2 ℚ) (t : ℚ) :
    (Cubic.hermite p0 p1 r0 r1).point t =
      ⟨(hermiteCubic p0.x p1.x r0.x r1.x).eval t, (hermiteCubic p0.y p1.y r0.y r1.y).eval t⟩ := by
  have hcoefficients (c₀ c₁ d₀ d₁ : ℚ) :
      t * (t * (t * (2 * c₀ - 2 * c₁ + d₀ + d₁) + (-3 * c₀ + 3 * c₁ - 2 * d₀ - d₁)) + d₀) + c₀ =
        (hermiteCubic c₀ c₁ d₀ d₁).eval t := by
    simp [hermiteCubic]
    ring
  exact Vec2.eq_of_coordinates (hcoefficients p0.x p1.x r0.x r1.x)
    (hcoefficients p0.y p1.y r0.y r1.y)

theorem traces_hermite (p0 p1 r0 r1 : Vec2 ℚ) (n : Nat) :
    Traces (hermiteCubic p0.x p1.x r0.x r1.x) (hermiteCubic p0.y p1.y r0.y r1.y) n
      (hermite p0 p1 r0 r1 n) :=
  Cubic.traces (fun t => by rw [Cubic.point_hermite]) (fun t => by rw [Cubic.point_hermite]) n

/-! ## Both kinds -/

/-- A Bézier curve leaves its first control point at three times the rate of the first side of its
control polygon, and arrives at the last one at three times the rate of the last side. -/
theorem Cubic.bezier_eq_hermite (p0 p1 p2 p3 : Vec2 ℚ) :
    Cubic.bezier p0 p1 p2 p3 = Cubic.hermite p0 p3 ((p1 - p0).scale 3) ((p3 - p2).scale 3) := by
  have ha (c₀ c₁ c₂ c₃ : ℚ) : -c₀ + 3 * c₁ - 3 * c₂ + c₃ =
      2 * c₀ - 2 * c₃ + 3 * (c₁ - c₀) + 3 * (c₃ - c₂) := by ring
  have hb (c₀ c₁ c₂ c₃ : ℚ) : 3 * c₀ - 6 * c₁ + 3 * c₂ =
      -3 * c₀ + 3 * c₃ - 2 * (3 * (c₁ - c₀)) - 3 * (c₃ - c₂) := by ring
  have hc (c₀ c₁ : ℚ) : -3 * c₀ + 3 * c₁ = 3 * (c₁ - c₀) := by ring
  rw [Cubic.bezier, Cubic.hermite, Cubic.mk.injEq]
  exact ⟨Vec2.eq_of_coordinates (ha ..) (ha ..), Vec2.eq_of_coordinates (hb ..) (hb ..),
    Vec2.eq_of_coordinates (hc ..) (hc ..), rfl⟩

/-- Bézier curves are traced along the Bernstein cubics of their control points and Hermite curves
along cubics that have the given values and slopes at both ends, with an edge for each step; and a
Bézier curve is the Hermite curve between its outer control points. -/
theorem curves_trace_cubics (n : Nat) :
    (∀ p0 p1 p2 p3 : Vec2 ℚ,
      Traces (bernstein p0.x p1.x p2.x p3.x) (bernstein p0.y p1.y p2.y p3.y) n
        (bezier p0 p1 p2 p3 n)) ∧
    (∀ p0 p1 r0 r1 : Vec2 ℚ, ∃ x y, Interpolates x p0.x p1.x r0.x r1.x ∧
      Interpolates y p0.y p1.y r0.y r1.y ∧ Traces x y n (hermite p0 p1 r0 r1 n)) ∧
    ∀ p0 p1 p2 p3 : Vec2 ℚ,
      bezier p0 p1 p2 p3 n = hermite p0 p3 ((p1 - p0).scale 3) ((p3 - p2).scale 3) n := by
  refine ⟨fun p0 p1 p2 p3 => traces_bezier p0 p1 p2 p3 n, fun p0 p1 r0 r1 => ?_,
    fun p0 p1 p2 p3 => ?_⟩
  · exact ⟨_, _, interpolates_hermiteCubic .., interpolates_hermiteCubic ..,
      traces_hermite p0 p1 r0 r1 n⟩
  · rw [bezier, Cubic.bezier_eq_hermite, hermite]

end Shape

end SceneScript
