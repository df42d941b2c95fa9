import DofNumbering.Basis.Composite
import DofNumbering.Basis.Lagrange
import DofNumbering.Basis.Power

namespace DofNumbering

/-! The Taylor-Hood basis: a quadratic velocity and a linear pressure.

The indices have two entries: `[0, i * d + c]` is component `c` of the velocity at
quadratic node `i` in dimension `d`, and `[1, j]` is the pressure at vertex `j`.
-/

structure TaylorHoodBasis where
  velocity : PowerBasis
  pressure : LagrangeBasis
  composite : CompositeBasis

namespace TaylorHoodBasis

/-- The basis on a grid that has to have the given dimension. -/
def create (grid : GridView) (dimension : Nat) : Except (Failure Refusal) TaylorHoodBasis :=
  if grid.dimension = dimension then do
    let quadratic ← LagrangeBasis.create grid 2
    let velocity : PowerBasis := ⟨.flatInterleaved, dimension, quadratic.toBasis⟩
    let pressure ← LagrangeBasis.create grid 1
    match CompositeBasis.create true ⟨velocity.toBasis, [pressure.toBasis]⟩ with
    | .ok composite => .ok ⟨velocity, pressure, composite⟩
    | .error reason => refuse reason
  else refuse (.dimensionMismatch dimension grid.dimension)

def toBasis (basis : TaylorHoodBasis) : Basis := basis.composite.toBasis

end TaylorHoodBasis

end DofNumbering
