import DofNumbering.Proofs.Continuity
import Mathlib

namespace DofNumbering

/-! Lagrange elements reproduce polynomials up to their order, in exact arithmetic.

The function that has the values of a polynomial at the nodes is the polynomial, and its
gradient is that of the polynomial, at every point of the plane.  Both sides are linear in the
polynomial, so the products of powers of the two coordinates up to the order decide.
-/

open MvPolynomial

/-- The coordinates of a point, as values of the two variables. -/
def Point.coordinates (point : Point ℚ) : Fin 2 → ℚ := ![point.x, point.y]

section Sampling

/-- The values of a polynomial at the nodes, each times the weight of the node, added up. -/
noncomputable def sampled (nodes : List (Point ℚ)) (weights : List ℚ)
    (polynomial : MvPolynomial (Fin 2) ℚ) : ℚ :=
  (List.zipWith (fun node weight => eval node.coordinates polynomial * weight) nodes weights).sum

variable {nodes : List (Point ℚ)} {node : Point ℚ} {weights : List ℚ} {weight : ℚ}
  {p q : MvPolynomial (Fin 2) ℚ}

@[simp]
theorem sampled_nil : sampled [] weights p = 0 := rfl

@[simp]
theorem sampled_nil_weights : sampled nodes [] p = 0 := by
  rw [sampled, List.zipWith_nil_right, List.sum_nil]

@[simp]
theorem sampled_cons : sampled (node :: nodes) (weight :: weights) p =
    eval node.coordinates p * weight + sampled nodes weights p := by
  rw [sampled, List.zipWith_cons_cons, List.sum_cons, sampled]

theorem sampled_add : sampled nodes weights (p + q) =
    sampled nodes weights p + sampled nodes weights q := by
  induction nodes generalizing weights with
  | nil => simp
  | cons node nodes ih =>
      cases weights with
      | nil => simp
      | cons weight weights =>
          rw [sampled_cons, sampled_cons, sampled_cons, ih, map_add]
          ring

theorem sampled_smul (c : ℚ) : sampled nodes weights (c • p) = c * sampled nodes weights p := by
  induction nodes generalizing weights with
  | nil => simp
  | cons node nodes ih =>
      cases weights with
      | nil => simp
      | cons weight weights =>
          rw [sampled_cons, sampled_cons, ih, smul_eval]
          ring

theorem sampled_one (sizes : nodes.length = weights.length) :
    sampled nodes weights 1 = weights.sum := by
  induction nodes generalizing weights with
  | nil => simp [List.eq_nil_of_length_eq_zero sizes.symm]
  | cons node nodes ih =>
      obtain ⟨weight, weights, rfl⟩ := List.exists_cons_of_length_eq_add_one sizes.symm
      rw [sampled_cons, ih (Nat.succ.inj sizes), map_one, one_mul, List.sum_cons]

/-- Sampling, as a linear function of the polynomial. -/
noncomputable def sampling (nodes : List (Point ℚ)) (weights : List ℚ) :
    MvPolynomial (Fin 2) ℚ →ₗ[ℚ] ℚ where
  toFun := sampled nodes weights
  map_add' _ _ := sampled_add
  map_smul' c _ := sampled_smul c

/-- The value at a point, as a linear function of the polynomial. -/
noncomputable def evaluation (point : Point ℚ) : MvPolynomial (Fin 2) ℚ →ₗ[ℚ] ℚ :=
  (aeval point.coordinates).toLinearMap

/-- The partial derivative at a point, as a linear function of the polynomial. -/
noncomputable def slope (point : Point ℚ) (i : Fin 2) : MvPolynomial (Fin 2) ℚ →ₗ[ℚ] ℚ :=
  evaluation point ∘ₗ (pderiv i).toLinearMap

theorem monomial_eq_smul_powers (m : Fin 2 →₀ ℕ) (c : ℚ) :
    monomial m c = c • (X 0 ^ m 0 * X 1 ^ m 1 : MvPolynomial (Fin 2) ℚ) := by
  rw [monomial_eq, Finsupp.prod_fintype _ _ (fun _ => pow_zero _), Fin.prod_univ_two, smul_eq_C_mul]

/-- Linear functions that agree on the products of powers up to a degree agree on all
polynomials up to that degree. -/
theorem eq_of_powers {f g : MvPolynomial (Fin 2) ℚ →ₗ[ℚ] ℚ} {order : Nat}
    (onPowers : ∀ a b, a + b ≤ order → f (X 0 ^ a * X 1 ^ b) = g (X 0 ^ a * X 1 ^ b))
    (bounded : q.totalDegree ≤ order) : f q = g q := by
  rw [q.as_sum, map_sum, map_sum]
  refine Finset.sum_congr rfl (fun m inSupport => ?_)
  have degree : m 0 + m 1 ≤ order := by
    have below := (le_totalDegree inSupport).trans bounded
    rwa [Finsupp.sum_fintype _ _ (fun _ => rfl), Fin.sum_univ_two] at below
  rw [monomial_eq_smul_powers, map_smul, map_smul, onPowers _ _ degree]

section Powers

variable {point : Point ℚ} {a b : Nat}

theorem sampling_powers : sampling nodes weights (X 0 ^ a * X 1 ^ b) =
    (List.zipWith (fun node weight => node.x ^ a * node.y ^ b * weight) nodes weights).sum := by
  have atNode (node : Point ℚ) :
      eval node.coordinates (X 0 ^ a * X 1 ^ b) = node.x ^ a * node.y ^ b := by
    rw [map_mul, map_pow, map_pow, eval_X, eval_X]
    rfl
  change sampled _ _ _ = _
  simp only [sampled, atNode]

theorem evaluation_powers :
    evaluation point (X 0 ^ a * X 1 ^ b) = point.x ^ a * point.y ^ b := by
  simp [evaluation, Point.coordinates]

theorem slope_powers (i : Fin 2) : slope point i (X 0 ^ a * X 1 ^ b) =
    ![a * point.x ^ (a - 1) * point.y ^ b, point.x ^ a * (b * point.y ^ (b - 1))] i := by
  change evaluation point (pderiv i _) = _
  rw [pderiv_mul, pderiv_pow, pderiv_pow, map_add]
  match i with
  | 0 => simp [evaluation, Point.coordinates]
  | 1 => simp [evaluation, Point.coordinates]

end Powers

end Sampling

namespace LagrangeElement

variable (element : LagrangeElement) (point : Point ℚ)

theorem length_nodes : (element.nodes (R := ℚ)).length = element.size := by
  cases element <;> rfl

theorem length_gradients : (element.gradients point).length = element.size := by
  cases element <;> rfl

theorem fillGradients_eq_ok :
    element.fillGradients element.size point = .ok (element.gradients point) := by
  rw [fillGradients, Shape.fill, if_pos (element.length_gradients point).symm]

theorem nodes_linear : LagrangeElement.linear.nodes (R := ℚ) = [⟨-1, -1⟩, ⟨1, -1⟩, ⟨-1, 1⟩] := by
  norm_num [nodes, LinearTriangle.reference, LinearTriangle.vertices]

theorem nodes_quadratic : LagrangeElement.quadratic.nodes (R := ℚ) =
    [⟨-1, -1⟩, ⟨1, -1⟩, ⟨-1, 1⟩, ⟨0, -1⟩, ⟨0, 0⟩, ⟨-1, 0⟩] := by
  norm_num [nodes, QuadraticTriangle.reference, QuadraticTriangle.vertices,
    QuadraticTriangle.ofLinear, QuadraticTriangle.midpoint, LinearTriangle.reference,
    Point.add_eq, Point.scale, Shape.half_eq]

/-- The shape functions with the values of a product of powers at the nodes add up to the
product. -/
theorem sampling_values_powers {a b : Nat} (degree : a + b ≤ element.order) :
    sampling element.nodes (element.values point) (X 0 ^ a * X 1 ^ b) =
      evaluation point (X 0 ^ a * X 1 ^ b) := by
  rw [sampling_powers, evaluation_powers]
  -- Each product of powers up to the order leaves one identity in the coordinates of the point.
  cases element with
  | linear =>
      rw [nodes_linear, values, Shape.linear, Shape.barycentric, Shape.half_eq]
      obtain ⟨xDegree, yDegree⟩ : a ≤ 1 ∧ b ≤ 1 - a := by simp only [order] at degree; omega
      interval_cases a <;> interval_cases b <;> simp <;> ring
  | quadratic =>
      rw [nodes_quadratic, values, Shape.quadratic, Shape.barycentric, Shape.half_eq]
      obtain ⟨xDegree, yDegree⟩ : a ≤ 2 ∧ b ≤ 2 - a := by simp only [order] at degree; omega
      interval_cases a <;> interval_cases b <;> simp [Shape.atCorner, Shape.atMidpoint] <;> ring

/-- Likewise the gradients of the shape functions add up to that of the product. -/
theorem sampling_gradients_powers {a b : Nat} (degree : a + b ≤ element.order) (i : Fin 2) :
    sampling element.nodes ((element.gradients point).map (·.coordinates i)) (X 0 ^ a * X 1 ^ b) =
      slope point i (X 0 ^ a * X 1 ^ b) := by
  rw [sampling_powers, slope_powers]
  cases element with
  | linear =>
      rw [nodes_linear, gradients, Shape.linearGradients, Shape.barycentricGradients, Shape.half_eq]
      obtain ⟨xDegree, yDegree⟩ : a ≤ 1 ∧ b ≤ 1 - a := by simp only [order] at degree; omega
      interval_cases a <;> interval_cases b <;> fin_cases i <;> simp [Point.coordinates] <;> ring
  | quadratic =>
      rw [nodes_quadratic, gradients, Shape.quadraticGradients, Shape.barycentric,
        Shape.barycentricGradients, Shape.half_eq]
      obtain ⟨xDegree, yDegree⟩ : a ≤ 2 ∧ b ≤ 2 - a := by simp only [order] at degree; omega
      interval_cases a <;> interval_cases b <;> fin_cases i <;>
        simp [Shape.gradientAtCorner, Shape.gradientAtMidpoint, Point.add_eq, Point.scale,
          Point.coordinates] <;> ring

/-- A shape function is one at its own node and vanishes at the others. -/
theorem getElem?_values_node {i j : Nat} {point : Point ℚ}
    (node : element.nodes[i]? = some point) (below : j < element.size) :
    (element.values point)[j]? = some (if i = j then 1 else 0) := by
  have inNodes : i < element.size := by
    rw [← element.length_nodes]
    exact (List.getElem?_eq_some_iff.mp node).1
  cases element with
  | linear =>
      rw [nodes_linear] at node
      simp only [size] at below inNodes
      interval_cases i <;> cases node <;> interval_cases j <;>
        norm_num [values, Shape.linear, Shape.barycentric, Shape.half_eq]
  | quadratic =>
      rw [nodes_quadratic] at node
      simp only [size] at below inNodes
      interval_cases i <;> cases node <;> interval_cases j <;>
        norm_num [values, Shape.quadratic, Shape.barycentric, Shape.half_eq, Shape.atCorner,
          Shape.atMidpoint]

theorem sampled_values {q : MvPolynomial (Fin 2) ℚ} (bounded : q.totalDegree ≤ element.order) :
    sampled element.nodes (element.values point) q = eval point.coordinates q :=
  eq_of_powers (fun _ _ => element.sampling_values_powers point) bounded

theorem sampled_gradients {q : MvPolynomial (Fin 2) ℚ} (bounded : q.totalDegree ≤ element.order)
    (i : Fin 2) :
    sampled element.nodes ((element.gradients point).map (·.coordinates i)) q =
      eval point.coordinates (pderiv i q) :=
  eq_of_powers (f := sampling _ _) (g := slope point i)
    (fun _ _ degree => element.sampling_gradients_powers point degree i) bounded

theorem sum_values : (element.values point).sum = 1 := by
  have sizes : (element.nodes (R := ℚ)).length = (element.values point).length := by
    rw [length_nodes, length_values]
  rw [← sampled_one sizes, sampled_values _ _ (by simp), map_one]

theorem sum_gradients (i : Fin 2) :
    ((element.gradients point).map (·.coordinates i)).sum = 0 := by
  have sizes : (element.nodes (R := ℚ)).length =
      ((element.gradients point).map (·.coordinates i)).length := by
    rw [length_nodes, List.length_map, length_gradients]
  rw [← sampled_one sizes, sampled_gradients _ _ (by simp), pderiv_one, map_zero]

/-- The values and gradients at any point of the plane reproduce every polynomial up to the
order and its gradient from the values at the nodes. -/
theorem reproduces_polynomials :
    ∃ values gradients,
      element.fillValues element.size point = .ok values ∧
      element.fillGradients element.size point = .ok gradients ∧
      (element.nodes (R := ℚ)).length = element.size ∧
      values.length = element.size ∧ gradients.length = element.size ∧
      (∀ q : MvPolynomial (Fin 2) ℚ, q.totalDegree ≤ element.order →
        sampled element.nodes values q = eval point.coordinates q ∧
        ∀ i, sampled element.nodes (gradients.map (·.coordinates i)) q =
          eval point.coordinates (pderiv i q)) ∧
      values.sum = 1 ∧
      (∀ i, (gradients.map (·.coordinates i)).sum = 0) ∧
      ∀ i j, element.nodes[i]? = some point → j < element.size →
        values[j]? = some (if i = j then 1 else 0) :=
  ⟨element.values point, element.gradients point, element.fillValues_eq_ok point,
    element.fillGradients_eq_ok point, element.length_nodes, element.length_values point,
    element.length_gradients point,
    fun _ bounded => ⟨element.sampled_values point bounded,
      element.sampled_gradients point bounded⟩,
    element.sum_values point, element.sum_gradients point,
    fun _ _ node below => element.getElem?_values_node node below⟩

/-- The product of the coordinates at a point outside the reference triangle, with its
derivative along the first axis. -/
theorem quadratic_reproduces_product :
    (X 0 * X 1 : MvPolynomial (Fin 2) ℚ).totalDegree ≤ quadratic.order ∧
      ∃ values gradients,
        quadratic.fillValues 6 ⟨3, -2⟩ = .ok values ∧
        quadratic.fillGradients 6 ⟨3, -2⟩ = .ok gradients ∧
        sampled quadratic.nodes values (X 0 * X 1) = -6 ∧
        sampled quadratic.nodes (gradients.map (·.coordinates 0)) (X 0 * X 1) = -2 := by
  have bounded : (X 0 * X 1 : MvPolynomial (Fin 2) ℚ).totalDegree ≤ quadratic.order := by
    refine (totalDegree_mul _ _).trans ?_
    rw [totalDegree_X, totalDegree_X]
    decide
  obtain ⟨values, gradients, filled, filledGradients, -, -, -, reproduced, -⟩ :=
    quadratic.reproduces_polynomials ⟨3, -2⟩
  obtain ⟨value, gradient⟩ := reproduced (X 0 * X 1) bounded
  refine ⟨bounded, values, gradients, filled, filledGradients, ?_, ?_⟩
  · rw [value]
    norm_num [Point.coordinates]
  · rw [gradient 0]
    norm_num [Point.coordinates]

end LagrangeElement

end DofNumbering
