import DofNumbering.Polynomial
import DofNumbering.Proofs.Element.Barycentric
import DofNumbering.Quadrature
import Mathlib

namespace DofNumbering

/-! Quadrature on the reference triangle is exact up to the strength of a rule.

The rule and the integral are both linear in the polynomial, so the products of powers of the
two coordinates decide.  Their integrals have a closed form, for all powers.
-/

open MeasureTheory

/-- The reference triangle in the real plane. -/
def referenceTriangle : Set (ℝ × ℝ) := convexHull ℝ {(-1, -1), (1, -1), (-1, 1)}

theorem convex_inReference : Convex ℝ {p : ℝ × ℝ | (⟨p.1, p.2⟩ : Point ℝ).InReference} := by
  rintro p ⟨left, lower, diagonal⟩ q ⟨left', lower', diagonal'⟩ s t nonneg nonneg' total
  refine ⟨convex_Ici (-1 : ℝ) left left' nonneg nonneg' total,
    convex_Ici (-1 : ℝ) lower lower' nonneg nonneg' total, ?_⟩
  have below : s * (p.1 + p.2) + t * (q.1 + q.2) ≤ 0 :=
    convex_Iic (0 : ℝ) diagonal diagonal' nonneg nonneg' total
  calc
    s * p.1 + t * q.1 + (s * p.2 + t * q.2) = s * (p.1 + p.2) + t * (q.1 + q.2) := by ring
    _ ≤ 0 := below

theorem mem_referenceTriangle_iff {p : ℝ × ℝ} :
    p ∈ referenceTriangle ↔ (⟨p.1, p.2⟩ : Point ℝ).InReference := by
  constructor
  · refine fun isMember => convexHull_min ?_ convex_inReference isMember
    rintro corner (rfl | rfl | rfl) <;> constructor <;> norm_num
  · intro inside
    obtain ⟨first, second, third⟩ := Shape.nonneg_barycentric inside
    have total := Shape.sum_barycentric (⟨p.1, p.2⟩ : Point ℝ)
    set weight := Shape.barycentric (⟨p.1, p.2⟩ : Point ℝ) with weight_eq
    rw [referenceTriangle, mem_convexHull_iff_exists_fintype]
    refine ⟨Fin 3, inferInstance, ![weight.first, weight.second, weight.third],
      ![(-1, -1), (1, -1), (-1, 1)], ?_, ?_, ?_, ?_⟩
    · simp [Fin.forall_fin_succ, first, second, third]
    · rw [Fin.sum_univ_three]
      exact total
    · simp [Fin.forall_fin_succ]
    · rw [Fin.sum_univ_three, weight_eq, Shape.barycentric_eq]
      ext <;> simp <;> ring

/-- The triangle reaches from the lower border up to the diagonal. -/
theorem mk_mem_referenceTriangle_iff {x y : ℝ} :
    (x, y) ∈ referenceTriangle ↔ x ∈ Set.Icc (-1) 1 ∧ y ∈ Set.Icc (-1) (-x) := by
  rw [mem_referenceTriangle_iff]
  constructor
  · rintro ⟨left, lower, diagonal⟩
    exact ⟨⟨left, by linarith⟩, lower, by linarith⟩
  · rintro ⟨⟨left, -⟩, lower, upper⟩
    exact ⟨left, lower, by linarith⟩

theorem isCompact_referenceTriangle : IsCompact referenceTriangle :=
  Set.Finite.isCompact_convexHull ℝ (Set.toFinite _)

section Integral

variable {f : ℝ × ℝ → ℝ}

/-- First along the second axis, up to the diagonal, then along the first axis. -/
theorem integral_referenceTriangle (continuous : Continuous f) :
    ∫ p in referenceTriangle, f p = ∫ x in (-1)..1, ∫ y in (-1)..(-x), f (x, y) := by
  have measurable := isCompact_referenceTriangle.measurableSet
  have integrable : Integrable (referenceTriangle.indicator f) :=
    (continuous.continuousOn.integrableOn_compact isCompact_referenceTriangle).integrable_indicator
      measurable
  have slice (x : ℝ) : ∫ y, referenceTriangle.indicator f (x, y) =
      (Set.Icc (-1) 1).indicator (fun x => ∫ y in (-1)..(-x), f (x, y)) x := by
    classical
    -- Outside of the range of the first coordinate the slice is empty.
    by_cases inRange : x ∈ Set.Icc (-1 : ℝ) 1
    · rw [Set.indicator_of_mem inRange, intervalIntegral.integral_of_le (neg_le_neg inRange.2),
        ← integral_Icc_eq_integral_Ioc, ← integral_indicator measurableSet_Icc]
      simp only [Set.indicator_apply, mk_mem_referenceTriangle_iff, inRange, true_and]
    · rw [Set.indicator_of_notMem inRange]
      simp only [Set.indicator_apply, mk_mem_referenceTriangle_iff, inRange, false_and, if_false,
        integral_zero]
  rw [← integral_indicator measurable, Measure.volume_eq_prod, integral_prod _ integrable]
  simp only [slice]
  rw [integral_indicator measurableSet_Icc, integral_Icc_eq_integral_Ioc,
    intervalIntegral.integral_of_le (by norm_num)]

/-- The integral of a product of powers over the reference triangle. -/
def powersIntegral (a b : Nat) : ℚ :=
  (-1) ^ (b + 1) / (b + 1) *
    ((1 - (-1) ^ (a + b + 2)) / (a + b + 2) - (1 - (-1) ^ (a + 1)) / (a + 1))

theorem integral_powers (a b : Nat) :
    ∫ p in referenceTriangle, p.1 ^ a * p.2 ^ b = (powersIntegral a b : ℝ) := by
  rw [integral_referenceTriangle (by fun_prop)]
  have inner (x : ℝ) : ∫ y in (-1)..(-x), x ^ a * y ^ b =
      (-1) ^ (b + 1) / (b + 1) * (x ^ (a + b + 1) - x ^ a) := by
    rw [intervalIntegral.integral_const_mul, integral_pow, neg_pow x]
    ring
  simp only [inner]
  rw [intervalIntegral.integral_const_mul, intervalIntegral.integral_sub (by simp) (by simp),
    integral_pow, integral_pow, powersIntegral]
  push_cast
  ring

end Integral

section Terms

variable (term : Term ℚ) (polynomial : Polynomial ℚ) (point : Point ℚ)

theorem Term.timesPower_eq (factor value : ℚ) (power : Nat) :
    timesPower factor power value = value * factor ^ power := by
  induction power generalizing value with
  | zero => rw [timesPower, pow_zero, mul_one]
  | succ power ih => rw [timesPower, ih, pow_succ', mul_assoc]

theorem Term.eval_eq : term.eval point =
    term.coefficient * (point.x ^ term.xPower * point.y ^ term.yPower) := by
  rw [eval, timesPower_eq, timesPower_eq, mul_assoc]

namespace Polynomial

theorem eval_eq_sum : polynomial.eval point = (polynomial.map (·.eval point)).sum := by
  rw [eval, List.sum_eq_foldl, List.foldl_map, Nat.cast_zero]

theorem eval_cons : eval (term :: polynomial) point = term.eval point + polynomial.eval point := by
  rw [eval_eq_sum, List.map_cons, List.sum_cons, ← eval_eq_sum]

/-- The sum of the terms at a point of the real plane. -/
noncomputable def atReal (p : ℝ × ℝ) : ℝ :=
  (polynomial.map (fun term =>
    (term.coefficient : ℝ) * (p.1 ^ term.xPower * p.2 ^ term.yPower))).sum

theorem atReal_cons (p : ℝ × ℝ) : atReal (term :: polynomial) p =
    (term.coefficient : ℝ) * (p.1 ^ term.xPower * p.2 ^ term.yPower) + polynomial.atReal p := by
  rw [atReal, List.map_cons, List.sum_cons, atReal]

theorem continuous_atReal : Continuous polynomial.atReal :=
  continuous_list_sum _ (fun _ _ => by fun_prop)

theorem integral_atReal_cons : ∫ p in referenceTriangle, atReal (term :: polynomial) p =
    term.coefficient * (powersIntegral term.xPower term.yPower : ℝ) +
      ∫ p in referenceTriangle, polynomial.atReal p := by
  have integrable {f : ℝ × ℝ → ℝ} (continuous : Continuous f) : IntegrableOn f referenceTriangle :=
    continuous.continuousOn.integrableOn_compact isCompact_referenceTriangle
  simp only [atReal_cons]
  rw [integral_add (integrable (by fun_prop)) (integrable polynomial.continuous_atReal),
    integral_const_mul, integral_powers]

end Polynomial

end Terms

namespace Quadrature

variable {rule : Quadrature ℚ} {f g : Point ℚ → ℚ} {polynomial : Polynomial ℚ}
  {strength a b : Nat}

theorem integrate_eq_sum : rule.integrate f =
    ((rule.weights.zip rule.points).map (fun (weight, point) => f point * weight)).sum := by
  rw [integrate, List.sum_eq_foldl, List.foldl_map, Nat.cast_zero]

theorem integrate_zero : rule.integrate (fun _ => 0) = 0 := by
  simp [integrate_eq_sum]

theorem integrate_add : rule.integrate (fun point => f point + g point) =
    rule.integrate f + rule.integrate g := by
  simp only [integrate_eq_sum, add_mul, List.sum_map_add]

theorem integrate_mul (c : ℚ) :
    rule.integrate (fun point => c * f point) = c * rule.integrate f := by
  simp only [integrate_eq_sum, mul_assoc, List.sum_map_mul_left]

theorem integrate_eval_cons (term : Term ℚ) :
    rule.integrate (Polynomial.eval (term :: polynomial)) =
      term.coefficient *
          rule.integrate (fun point => point.x ^ term.xPower * point.y ^ term.yPower) +
        rule.integrate polynomial.eval := by
  rw [← integrate_mul, ← integrate_add]
  simp only [← Term.eval_eq, ← Polynomial.eval_cons]

/-- A rule that is exact for products of powers is exact for their linear combinations. -/
theorem integrate_eq_integral
    (exactly : ∀ a b, a + b ≤ strength →
      rule.integrate (fun point => point.x ^ a * point.y ^ b) = powersIntegral a b)
    (bounded : ∀ term ∈ polynomial, term.xPower + term.yPower ≤ strength) :
    (rule.integrate polynomial.eval : ℝ) = ∫ p in referenceTriangle, polynomial.atReal p := by
  induction polynomial with
  | nil =>
      have noTerms : rule.integrate (Polynomial.eval []) = 0 := integrate_zero
      rw [noTerms, Rat.cast_zero]
      exact (integral_zero _ _).symm
  | cons term rest ih =>
      have ofTerm := exactly _ _ (bounded term List.mem_cons_self)
      have ofRest := ih (fun other isMember => bounded other (List.mem_cons_of_mem _ isMember))
      rw [integrate_eval_cons, ofTerm, Rat.cast_add, Rat.cast_mul, ofRest,
        Polynomial.integral_atReal_cons]

/-- The powers up to the strength leave ten moments at most. -/
theorem integrate_powers (supported : strength ≤ 3) (created : onTriangle strength = .ok rule)
    (degree : a + b ≤ strength) :
    rule.integrate (fun point => point.x ^ a * point.y ^ b) = powersIntegral a b := by
  obtain ⟨xDegree, yDegree⟩ : a ≤ strength ∧ b ≤ strength - a := by omega
  interval_cases strength <;> obtain rfl := Except.ok.inj created <;> interval_cases a <;>
    interval_cases b <;> norm_num [integrate, ratio, powersIntegral]

/-- The rules for the strengths up to three exist, and integrate every polynomial of a total
degree up to the strength exactly over the reference triangle. -/
theorem integrates_exactly (supported : strength ≤ 3) :
    ∃ rule : Quadrature ℚ, onTriangle strength = .ok rule ∧
      ∀ polynomial : Polynomial ℚ,
        (∀ term ∈ polynomial, term.xPower + term.yPower ≤ strength) →
        (rule.integrate polynomial.eval : ℝ) =
          ∫ p in referenceTriangle, polynomial.atReal p := by
  have created : ∃ rule : Quadrature ℚ, onTriangle strength = .ok rule := by
    interval_cases strength <;> exact ⟨_, rfl⟩
  obtain ⟨rule, created⟩ := created
  exact ⟨rule, created, fun polynomial bounded =>
    integrate_eq_integral (fun _ _ degree => integrate_powers supported created degree) bounded⟩

namespace Sample

/-- The polynomial `3 x² y - 1/2`. -/
def cubic : Polynomial ℚ := [⟨3, 2, 1⟩, ⟨-1 / 2, 0, 0⟩]

end Sample

theorem integrates_exactly_cubic :
    3 ≤ 3 ∧ (∀ term ∈ Sample.cubic, term.xPower + term.yPower ≤ 3) ∧
      ∃ rule : Quadrature ℚ, onTriangle 3 = .ok rule ∧
        rule.integrate Sample.cubic.eval = -7 / 5 ∧
        ∫ p in referenceTriangle, Sample.cubic.atReal p = -7 / 5 := by
  have bounded : ∀ term ∈ Sample.cubic, term.xPower + term.yPower ≤ 3 := by decide
  obtain ⟨rule, created, exactly⟩ := integrates_exactly (le_refl 3)
  have value : rule.integrate Sample.cubic.eval = -7 / 5 := by
    obtain rfl := Except.ok.inj created
    norm_num [integrate, ratio, Sample.cubic, Polynomial.eval_eq_sum, Term.eval_eq]
  refine ⟨le_refl 3, bounded, rule, created, value, ?_⟩
  rw [← exactly Sample.cubic bounded, value]
  norm_num

end Quadrature

end DofNumbering
