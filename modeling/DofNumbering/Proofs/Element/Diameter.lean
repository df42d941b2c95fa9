import DofNumbering.Proofs.Element.Barycentric
import Mathlib.Analysis.Real.Sqrt
import Mathlib.Order.Bounds.Image
import Mathlib.Tactic.GCongr

namespace DofNumbering

/-! The longest side of a triangle is the largest distance of any two of its points.

A point of the triangle is the mean of the corners under its barycentric weights.  The squared
distance from a given point is convex, so it is at most the largest one from a corner; this
is used for one of the two points and then for the other one.
-/

variable {K : Type}

namespace Point

variable [Field K] (p q : Point K)

theorem squaredDistance_comm : p.squaredDistance q = q.squaredDistance p := by
  rw [squaredDistance, squaredDistance]
  ring

theorem squaredDistance_self : p.squaredDistance p = 0 := by
  rw [squaredDistance]
  ring

theorem squaredDistance_nonneg [LinearOrder K] [IsStrictOrderedRing K] :
    0 ≤ p.squaredDistance q :=
  add_nonneg (mul_self_nonneg _) (mul_self_nonneg _)

end Point

namespace LinearTriangle

theorem larger_eq_max [LinearOrder K] : larger (R := K) = max :=
  funext₂ (fun left right => (max_def_lt left right).symm)

section Sides

variable [Field K] (triangle : LinearTriangle K)

/-- Corners are as far apart as the ends of a side, if they are not the same. -/
theorem squaredDistance_vertex_mem (a b : Fin 3) :
    (triangle.vertex a).squaredDistance (triangle.vertex b) ∈ 0 :: triangle.squaredSides := by
  rcases eq_or_ne a b with rfl | different
  · rw [Point.squaredDistance_self]
    exact List.mem_cons_self
  · refine List.mem_cons_of_mem _ ?_
    rcases edge_cases different with
      ⟨rfl, rfl⟩ | ⟨rfl, rfl⟩ | ⟨rfl, rfl⟩ | ⟨rfl, rfl⟩ | ⟨rfl, rfl⟩ | ⟨rfl, rfl⟩ <;>
      simp [vertex, squaredSides, Point.squaredDistance_comm]

theorem exists_vertices_of_mem_squaredSides {side : K} (isSide : side ∈ triangle.squaredSides) :
    ∃ a b, side = (triangle.vertex a).squaredDistance (triangle.vertex b) := by
  simp only [squaredSides, List.mem_cons, List.not_mem_nil, or_false] at isSide
  rcases isSide with rfl | rfl | rfl
  · exact ⟨0, 1, rfl⟩
  · exact ⟨0, 2, rfl⟩
  · exact ⟨1, 2, rfl⟩

variable [LinearOrder K] {root : K → K}

/-- The search for the longest side starts at zero. -/
theorem isGreatest_root_longestSide (root_zero : root 0 = 0) :
    IsGreatest (root '' {length | length ∈ 0 :: triangle.squaredSides})
      (triangle.longestSide root) := by
  have roots : root '' {length | length ∈ 0 :: triangle.squaredSides} =
      {length | length ∈ (0 :: triangle.squaredSides).map root} :=
    Set.ext (fun _ => List.mem_map.symm)
  rw [roots, List.map_cons, root_zero, longestSide, larger_eq_max, Nat.cast_zero]
  exact List.max?_eq_some_iff.mp List.max?_cons'

theorem isGreatest_longestSide_or_zero :
    IsGreatest {length | length ∈ 0 :: triangle.squaredSides} (triangle.longestSide id) := by
  have greatest : IsGreatest (id '' _) _ := triangle.isGreatest_root_longestSide rfl
  rwa [Set.image_id] at greatest

variable [IsStrictOrderedRing K]

/-- If zero is the largest one, the sides have length zero as well. -/
theorem isGreatest_squaredSides :
    IsGreatest {side | side ∈ triangle.squaredSides} (triangle.longestSide id) := by
  obtain ⟨isMember, bound⟩ := triangle.isGreatest_longestSide_or_zero
  refine ⟨?_, fun side isSide => bound (List.mem_cons_of_mem _ isSide)⟩
  rcases List.mem_cons.mp isMember with isZero | isSide
  · have inSides : triangle.first.squaredDistance triangle.second ∈ triangle.squaredSides :=
      List.mem_cons_self
    have shortest := bound (List.mem_cons_of_mem _ inSides)
    rw [isZero] at shortest ⊢
    exact le_antisymm shortest (Point.squaredDistance_nonneg _ _) ▸ inSides
  · exact isSide

/-- The longest side is the same one before and after taking roots. -/
theorem longestSide_eq_root (monotone : MonotoneOn root (Set.Ici 0)) (root_zero : root 0 = 0) :
    triangle.longestSide root = root (triangle.longestSide id) := by
  have nonneg : {length | length ∈ 0 :: triangle.squaredSides} ⊆ Set.Ici 0 := by
    intro length isMember
    rcases List.mem_cons.mp isMember with rfl | isSide
    · exact Set.self_mem_Ici
    · obtain ⟨a, b, rfl⟩ := triangle.exists_vertices_of_mem_squaredSides isSide
      exact Point.squaredDistance_nonneg _ _
  exact (triangle.isGreatest_root_longestSide root_zero).unique
    ((monotone.mono nonneg).map_isGreatest triangle.isGreatest_longestSide_or_zero)

end Sides

section Distances

variable [Field K] [LinearOrder K] [IsStrictOrderedRing K] (triangle : LinearTriangle K)
  {p q z : Point K} {bound : K}

/-- The squared distances of two points of the triangle. -/
def squaredDistances : Set K :=
  {distance | ∃ p q : Point K, p.InReference ∧ q.InReference ∧
    distance = (triangle.map p).squaredDistance (triangle.map q)}

/-- The squared distance of the mean of the corners falls short of the mean of the squared
distances of the corners, by each squared side times the weights of its ends. -/
theorem squaredDistance_map (p z : Point K) :
    let weight := Shape.barycentric p
    (triangle.map p).squaredDistance z =
      weight.first * triangle.first.squaredDistance z +
        weight.second * triangle.second.squaredDistance z +
        weight.third * triangle.third.squaredDistance z -
      (weight.first * weight.second * triangle.first.squaredDistance triangle.second +
        weight.first * weight.third * triangle.first.squaredDistance triangle.third +
        weight.second * weight.third * triangle.second.squaredDistance triangle.third) := by
  simp only [map, weightedSum, xCoordinates, yCoordinates, Point.squaredDistance,
    Shape.barycentric_eq]
  ring

theorem squaredDistance_map_le (inside : p.InReference)
    (corners : ∀ a, (triangle.vertex a).squaredDistance z ≤ bound) :
    (triangle.map p).squaredDistance z ≤ bound := by
  obtain ⟨first, second, third⟩ := Shape.nonneg_barycentric inside
  rw [squaredDistance_map]
  set weight := Shape.barycentric p
  have shortfall : 0 ≤ weight.first * weight.second *
        triangle.first.squaredDistance triangle.second +
      weight.first * weight.third * triangle.first.squaredDistance triangle.third +
      weight.second * weight.third * triangle.second.squaredDistance triangle.third :=
    add_nonneg
      (add_nonneg (mul_nonneg (mul_nonneg first second) (Point.squaredDistance_nonneg _ _))
        (mul_nonneg (mul_nonneg first third) (Point.squaredDistance_nonneg _ _)))
      (mul_nonneg (mul_nonneg second third) (Point.squaredDistance_nonneg _ _))
  calc
    _ ≤ weight.first * triangle.first.squaredDistance z +
          weight.second * triangle.second.squaredDistance z +
          weight.third * triangle.third.squaredDistance z := sub_le_self _ shortfall
    _ ≤ weight.first * bound + weight.second * bound + weight.third * bound := by
      gcongr
      · exact corners 0
      · exact corners 1
      · exact corners 2
    _ = bound := by rw [← add_mul, ← add_mul, Shape.sum_barycentric, one_mul]

theorem squaredDistance_map_map_le (insideP : p.InReference) (insideQ : q.InReference)
    (corners : ∀ a b, (triangle.vertex a).squaredDistance (triangle.vertex b) ≤ bound) :
    (triangle.map p).squaredDistance (triangle.map q) ≤ bound := by
  -- The first point may be replaced by a corner, and then the second one as well.
  refine triangle.squaredDistance_map_le insideP (fun a => ?_)
  rw [Point.squaredDistance_comm]
  refine triangle.squaredDistance_map_le insideQ (fun b => ?_)
  exact corners b a

theorem isGreatest_squaredDistances :
    IsGreatest triangle.squaredDistances (triangle.longestSide id) := by
  constructor
  · obtain ⟨a, b, same⟩ := triangle.exists_vertices_of_mem_squaredSides
      triangle.isGreatest_squaredSides.1
    refine ⟨reference.vertex a, reference.vertex b, inReference_vertex a, inReference_vertex b, ?_⟩
    rw [map_vertex, map_vertex, same]
  · rintro distance ⟨p, q, insideP, insideQ, rfl⟩
    refine triangle.squaredDistance_map_map_le insideP insideQ (fun a b => ?_)
    exact triangle.isGreatest_longestSide_or_zero.2 (triangle.squaredDistance_vertex_mem a b)

theorem squaredDistances_subset_Ici : triangle.squaredDistances ⊆ Set.Ici 0 := by
  rintro distance ⟨p, q, -, -, rfl⟩
  exact Point.squaredDistance_nonneg _ _

/-- The longest of the three sides is the largest distance of two points of the triangle, and
likewise after taking roots. -/
theorem isGreatest_longestSide :
    IsGreatest {side | side ∈ triangle.squaredSides} (triangle.longestSide id) ∧
    IsGreatest triangle.squaredDistances (triangle.longestSide id) ∧
    ∀ root : K → K, MonotoneOn root (Set.Ici 0) → root 0 = 0 →
      IsGreatest (root '' triangle.squaredDistances) (triangle.longestSide root) := by
  refine ⟨triangle.isGreatest_squaredSides, triangle.isGreatest_squaredDistances, ?_⟩
  intro root monotone root_zero
  rw [triangle.longestSide_eq_root monotone root_zero]
  exact (monotone.mono triangle.squaredDistances_subset_Ici).map_isGreatest
    triangle.isGreatest_squaredDistances

end Distances

namespace Sample

/-- Its sides have the lengths 3, 4 and 5. -/
def rightTriangle : LinearTriangle ℝ := ⟨⟨0, 0⟩, ⟨3, 0⟩, ⟨0, 4⟩⟩

end Sample

theorem isGreatest_longestSide_rightTriangle :
    MonotoneOn Real.sqrt (Set.Ici 0) ∧ Real.sqrt 0 = 0 ∧
      IsGreatest Sample.rightTriangle.squaredDistances 25 ∧
      IsGreatest (Real.sqrt '' Sample.rightTriangle.squaredDistances) 5 := by
  have monotone : MonotoneOn Real.sqrt (Set.Ici 0) := fun _ _ _ _ le => Real.sqrt_le_sqrt le
  have sides : Sample.rightTriangle.squaredSides = [9, 16, 25] := by
    norm_num [squaredSides, Sample.rightTriangle, Point.squaredDistance]
  have squared : Sample.rightTriangle.longestSide id = 25 := by
    norm_num [longestSide, sides, larger]
  have longest : Sample.rightTriangle.longestSide Real.sqrt = 5 := by
    have square : (25 : ℝ) = 5 * 5 := by norm_num
    rw [longestSide_eq_root _ monotone Real.sqrt_zero, squared, square,
      Real.sqrt_mul_self (by norm_num)]
  obtain ⟨-, greatest, greatestRoot⟩ := Sample.rightTriangle.isGreatest_longestSide
  exact ⟨monotone, Real.sqrt_zero, squared ▸ greatest,
    longest ▸ greatestRoot _ monotone Real.sqrt_zero⟩

end LinearTriangle

end DofNumbering
