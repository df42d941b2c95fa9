import DofNumbering.Proofs.Continuity
import Mathlib.Algebra.Order.Field.Basic
import Mathlib.Tactic.Linarith

namespace DofNumbering

/-! Barycentric coordinates, in exact arithmetic.

They add up to one everywhere, and at the points of the reference triangle none of them is
negative.  A triangle is mapped by giving its corners these weights, so corners go to corners
and midpoints to midpoints.
-/

variable {K : Type} [Field K]

theorem LinearTriangle.reference_eq : reference (R := K) = ⟨⟨-1, -1⟩, ⟨1, -1⟩, ⟨-1, 1⟩⟩ := by
  rw [reference, Nat.cast_one]

variable [LinearOrder K] [IsStrictOrderedRing K]

/-- The point lies in the reference triangle, on its border or inside. -/
structure Point.InReference (point : Point K) : Prop where
  left : -1 ≤ point.x
  lower : -1 ≤ point.y
  diagonal : point.x + point.y ≤ 0

namespace Shape

theorem barycentric_eq (point : Point K) :
    barycentric point =
      ⟨(-point.x - point.y) / 2, (point.x + 1) / 2, (point.y + 1) / 2⟩ := by
  rw [barycentric, half_eq, Barycentric.mk.injEq]
  exact ⟨by ring, by ring, by ring⟩

theorem sum_barycentric (point : Point K) :
    (barycentric point).first + (barycentric point).second + (barycentric point).third = 1 := by
  rw [barycentric_eq]
  ring

/-- Points of the reference triangle have no negative weight. -/
structure Barycentric.Nonneg (weight : Barycentric K) : Prop where
  first : 0 ≤ weight.first
  second : 0 ≤ weight.second
  third : 0 ≤ weight.third

theorem nonneg_barycentric {point : Point K} (inside : point.InReference) :
    (barycentric point).Nonneg := by
  obtain ⟨left, lower, diagonal⟩ := inside
  rw [barycentric_eq]
  exact ⟨by linarith, by linarith, by linarith⟩

end Shape

namespace LinearTriangle

theorem corner_cases (a : Fin 3) : a = 0 ∨ a = 1 ∨ a = 2 := by
  decide +revert

theorem inReference_vertex (a : Fin 3) : ((reference (R := K)).vertex a).InReference := by
  rw [reference_eq]
  rcases corner_cases a with rfl | rfl | rfl <;> constructor <;> simp [vertex]

variable (triangle : LinearTriangle K)

theorem map_vertex (a : Fin 3) : triangle.map (reference.vertex a) = triangle.vertex a := by
  rw [map, Shape.barycentric_eq, reference_eq]
  rcases corner_cases a with rfl | rfl | rfl <;>
    simp [weightedSum, xCoordinates, yCoordinates, vertex]

theorem map_midpoint (p q : Point K) :
    triangle.map (QuadraticTriangle.midpoint p q) =
      QuadraticTriangle.midpoint (triangle.map p) (triangle.map q) := by
  simp only [map, weightedSum, Shape.barycentric_eq, QuadraticTriangle.midpoint, Point.add_eq,
    Point.scale, Shape.half_eq, Point.mk.injEq]
  exact ⟨by ring, by ring⟩

end LinearTriangle

end DofNumbering
