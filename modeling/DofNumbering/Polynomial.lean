import DofNumbering.Point

namespace DofNumbering

/-! Polynomials in two variables, as lists of terms. -/

structure Term (R : Type) where
  coefficient : R
  xPower : Nat
  yPower : Nat
deriving DecidableEq, Repr

instance {R : Type} [Decode R] : Decode (Term R) where
  decode? json := (decode? json).map (fun (coefficient, xPower, yPower) =>
    ⟨coefficient, xPower, yPower⟩)

abbrev Polynomial (R : Type) := List (Term R)

variable {R : Type} [Add R] [Mul R] [NatCast R]

/-- Multiplies a value by a factor a number of times. -/
def Term.timesPower (factor : R) : Nat → R → R
  | 0, value => value
  | power + 1, value => timesPower factor power (value * factor)

def Term.eval (point : Point R) (term : Term R) : R :=
  timesPower point.y term.yPower (timesPower point.x term.xPower term.coefficient)

/-- The sum of the terms at a point, added from the left. -/
def Polynomial.eval (polynomial : Polynomial R) (point : Point R) : R :=
  polynomial.foldl (fun sum term => sum + term.eval point) ((0 : Nat) : R)

end DofNumbering
