import DofNumbering.Point

namespace DofNumbering

/-! Quadrature on the reference triangle. -/

inductive QuadratureError where
  | unsupportedStrength (strength maximum : Nat)
deriving DecidableEq, Repr

def QuadratureError.message : QuadratureError → String
  | .unsupportedStrength strength maximum =>
      "No triangle quadrature of strength " ++ toString strength ++
        " is available (max strength is " ++ toString maximum ++ ")."

structure Quadrature (R : Type) where
  weights : List R
  points : List (Point R)
deriving DecidableEq, Repr

namespace Quadrature

variable {R : Type} [Add R] [Sub R] [Mul R] [Div R] [Neg R] [NatCast R]

/-- The weighted sum of the values of a function, over the shorter of the two lists. -/
def integrate (rule : Quadrature R) (function : Point R → R) : R :=
  (rule.weights.zip rule.points).foldl
    (fun sum (weight, point) => sum + function point * weight) ((0 : Nat) : R)

def ratio (numerator denominator : Nat) : R := (numerator : R) / (denominator : R)

/-- A rule that is exact for polynomials up to a total degree, the strength. -/
def onTriangle : Nat → Except QuadratureError (Quadrature R)
  | 0 => .ok ⟨[((2 : Nat) : R)], [⟨-ratio 1 3, -ratio 1 3⟩]⟩
  | 1 => .ok ⟨[((2 : Nat) : R)], [⟨-ratio 1 3, -ratio 1 3⟩]⟩
  | 2 =>
      .ok ⟨[ratio 2 3, ratio 2 3, ratio 2 3],
        [⟨-ratio 2 3, -ratio 2 3⟩, ⟨ratio 1 3, -ratio 2 3⟩, ⟨-ratio 2 3, ratio 1 3⟩]⟩
  | 3 =>
      .ok ⟨[-ratio 9 8, ratio 25 24, ratio 25 24, ratio 25 24],
        [⟨-ratio 1 3, -ratio 1 3⟩, ⟨ratio 1 5, -ratio 3 5⟩, ⟨-ratio 3 5, ratio 1 5⟩,
          ⟨-ratio 3 5, -ratio 3 5⟩]⟩
  | strength => .error (.unsupportedStrength strength 3)

end Quadrature

end DofNumbering
