import DofNumbering.Proofs.Element.Barycentric
import DofNumbering.Proofs.Element.Reproduction
import Mathlib

namespace DofNumbering

/-! A quadratic triangle with straight edges maps points as its shape functions do.

The map is that of the corners, whose coordinates are polynomials of degree one.  These have
the coordinates of the six vertices as their values at the nodes, so the quadratic shape
functions reproduce them from the vertices, and their gradients reproduce the derivative.
-/

open MvPolynomial

namespace Point

/-- The products of a coordinate of each point with a weight, added up. -/
def sumAlong (i : Fin 2) (points : List (Point ℚ)) (weights : List ℚ) : ℚ :=
  (List.zipWith (fun point weight => point.coordinates i * weight) points weights).sum

/-- The points times weights, added up. -/
def weightedSum (points : List (Point ℚ)) (weights : List ℚ) : Point ℚ :=
  ⟨sumAlong 0 points weights, sumAlong 1 points weights⟩

def ofPair (pair : ℚ × ℚ) : Point ℚ := ⟨pair.1, pair.2⟩

def toPair (point : Point ℚ) : ℚ × ℚ := (point.x, point.y)

end Point

namespace Jacobian

/-- The columns of points times rows of gradients, added up. -/
def ofNodes (points gradients : List (Point ℚ)) : Jacobian ℚ :=
  let along (i k : Fin 2) := Point.sumAlong i points (gradients.map (·.coordinates k))
  ⟨⟨along 0 0, along 0 1⟩, ⟨along 1 0, along 1 1⟩⟩

variable (jacobian : Jacobian ℚ)

def row : Fin 2 → Point ℚ := ![jacobian.xRow, jacobian.yRow]

/-- The change of the image that belongs to a shift. -/
def apply (shift : Point ℚ) : Point ℚ :=
  ⟨jacobian.xRow.x * shift.x + jacobian.xRow.y * shift.y,
    jacobian.yRow.x * shift.x + jacobian.yRow.y * shift.y⟩

def toLinear : ℚ × ℚ →L[ℚ] ℚ × ℚ :=
  let ofRow (row : Point ℚ) := row.x • ContinuousLinearMap.fst ℚ ℚ ℚ + row.y • .snd ℚ ℚ ℚ
  (ofRow jacobian.xRow).prod (ofRow jacobian.yRow)

theorem toLinear_apply (shift : ℚ × ℚ) :
    jacobian.toLinear shift = (jacobian.apply (.ofPair shift)).toPair := rfl

end Jacobian

namespace LinearTriangle

variable (triangle : LinearTriangle ℚ) {nodes : List (Point ℚ)} {weights : List ℚ}

theorem map_shift (point shift : Point ℚ) :
    triangle.map (point + shift) = triangle.map point + triangle.jacobian.apply shift := by
  simp only [map, jacobian, Jacobian.apply, weightedSum, Shape.barycentric,
    Shape.barycentricGradients, Point.add_eq, Point.mk.injEq, Nat.cast_zero]
  exact ⟨by ring, by ring⟩

theorem map_eq_add (point : Point ℚ) :
    triangle.map point = triangle.map ⟨0, 0⟩ + triangle.jacobian.apply point := by
  rw [← map_shift, Point.add_eq, zero_add, zero_add]

theorem hasFDerivAt_map (point : Point ℚ) :
    HasFDerivAt (fun pair => (triangle.map (.ofPair pair)).toPair) triangle.jacobian.toLinear
      point.toPair := by
  -- The map differs from its derivative by its value at the origin only.
  have expanded (pair : ℚ × ℚ) : (triangle.map (.ofPair pair)).toPair =
      (triangle.map ⟨0, 0⟩).toPair + triangle.jacobian.toLinear pair := by
    rw [map_eq_add, Jacobian.toLinear_apply]
    rfl
  simp only [expanded]
  exact triangle.jacobian.toLinear.hasFDerivAt.const_add _

/-- A coordinate of the image of a point, as a polynomial in those of the point. -/
noncomputable def coordinate (i : Fin 2) : MvPolynomial (Fin 2) ℚ :=
  C ((triangle.map ⟨0, 0⟩).coordinates i) + C ((triangle.jacobian.row i).x) * X 0 +
    C ((triangle.jacobian.row i).y) * X 1

variable (i : Fin 2)

theorem eval_coordinate (point : Point ℚ) :
    eval point.coordinates (triangle.coordinate i) = (triangle.map point).coordinates i := by
  rw [map_eq_add, coordinate, map_add, map_add, map_mul, map_mul, eval_C, eval_C, eval_C, eval_X,
    eval_X, add_assoc]
  match i with
  | 0 => rfl
  | 1 => rfl

theorem totalDegree_coordinate_le (element : LagrangeElement) :
    (triangle.coordinate i).totalDegree ≤ element.order := by
  have multiple (c : ℚ) (k : Fin 2) : (C c * X k : MvPolynomial (Fin 2) ℚ).totalDegree ≤ 1 :=
    (totalDegree_mul _ _).trans (by rw [totalDegree_C, totalDegree_X])
  have order_pos : 1 ≤ element.order := by cases element <;> decide
  refine (totalDegree_add _ _).trans (max_le ((totalDegree_add _ _).trans (max_le ?_ ?_)) ?_)
  · rw [totalDegree_C]
    exact Nat.zero_le _
  · exact (multiple _ _).trans order_pos
  · exact (multiple _ _).trans order_pos

theorem pderiv_coordinate (k : Fin 2) :
    pderiv k (triangle.coordinate i) = C ((triangle.jacobian.row i).coordinates k) := by
  match k with
  | 0 => simp [coordinate, Point.coordinates]
  | 1 => simp [coordinate, Point.coordinates]

theorem sumAlong_map_nodes :
    Point.sumAlong i (nodes.map triangle.map) weights =
      sampled nodes weights (triangle.coordinate i) := by
  simp only [Point.sumAlong, sampled, List.zipWith_map_left, eval_coordinate]

variable (element : LagrangeElement) (point : Point ℚ)

/-- The shape functions of either order map as the triangle does, given where their nodes go. -/
theorem sumAlong_values :
    Point.sumAlong i (element.nodes.map triangle.map) (element.values point) =
      (triangle.map point).coordinates i := by
  rw [sumAlong_map_nodes, ← eval_coordinate]
  exact element.sampled_values point (triangle.totalDegree_coordinate_le i element)

theorem sumAlong_gradients (k : Fin 2) :
    Point.sumAlong i (element.nodes.map triangle.map)
        ((element.gradients point).map (·.coordinates k)) =
      (triangle.jacobian.row i).coordinates k := by
  have bounded := triangle.totalDegree_coordinate_le i element
  have reproduced := element.sampled_gradients point bounded k
  rw [pderiv_coordinate, eval_C] at reproduced
  rw [sumAlong_map_nodes]
  exact reproduced

end LinearTriangle

namespace QuadraticTriangle

variable (triangle : LinearTriangle ℚ) (point : Point ℚ)

theorem map_vertices_reference :
    reference.vertices.map triangle.map = (ofLinear triangle).vertices := by
  have first : triangle.map LinearTriangle.reference.first = triangle.first :=
    triangle.map_vertex 0
  have second : triangle.map LinearTriangle.reference.second = triangle.second :=
    triangle.map_vertex 1
  have third : triangle.map LinearTriangle.reference.third = triangle.third :=
    triangle.map_vertex 2
  simp only [reference, ofLinear, vertices, List.map_cons, List.map_nil,
    LinearTriangle.map_midpoint, first, second, third]

/-- The map of a quadratic triangle with straight edges, which is that of the corners, is what
its shape functions make of its six vertices, and its derivative is what their gradients make
of them. -/
theorem isoparametric :
    Point.weightedSum (ofLinear triangle).vertices (Shape.quadratic point) =
      (ofLinear triangle).map point ∧
    (ofLinear triangle).map point = triangle.map point ∧
    Jacobian.ofNodes (ofLinear triangle).vertices (Shape.quadraticGradients point) =
      (ofLinear triangle).jacobian ∧
    HasFDerivAt (fun pair => ((ofLinear triangle).map (.ofPair pair)).toPair)
      (ofLinear triangle).jacobian.toLinear point.toPair ∧
    (∀ shift, (ofLinear triangle).map (point + shift) =
      (ofLinear triangle).map point + (ofLinear triangle).jacobian.apply shift) ∧
    reference.vertices.map (ofLinear triangle).map = (ofLinear triangle).vertices := by
  refine ⟨?_, rfl, ?_, triangle.hasFDerivAt_map point, triangle.map_shift point,
    map_vertices_reference triangle⟩
  · have along (i : Fin 2) := triangle.sumAlong_values i .quadratic point
    rw [← map_vertices_reference]
    exact congrArg₂ Point.mk (along 0) (along 1)
  · have along (i k : Fin 2) := triangle.sumAlong_gradients i .quadratic point k
    rw [← map_vertices_reference]
    exact congrArg₂ Jacobian.mk (congrArg₂ Point.mk (along 0 0) (along 0 1))
      (congrArg₂ Point.mk (along 1 0) (along 1 1))

end QuadraticTriangle

end DofNumbering
