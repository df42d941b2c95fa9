import DofNumbering.Basis.TaylorHood

namespace DofNumbering

/-! Bases together with the way they were constructed. -/

inductive Construction where
  | lagrange (basis : LagrangeBasis)
  | power (basis : PowerBasis)
  | composite (basis : CompositeBasis)
  | taylorHood (basis : TaylorHoodBasis)
  /-- A reference, which behaves like what it refers to. -/
  | reference (target : Construction)
  /-- A basis of which nothing but the interface is known. -/
  | other (basis : Basis)

namespace Construction

def toBasis : Construction → Basis
  | .lagrange basis => basis.toBasis
  | .power basis => basis.toBasis
  | .composite basis => basis.toBasis
  | .taylorHood basis => basis.toBasis
  | .reference target => target.toBasis
  | .other basis => basis

/-- The Lagrange basis, if it is one, also behind references. -/
def lagrange? : Construction → Option LagrangeBasis
  | .lagrange basis => some basis
  | .reference target => target.lagrange?
  | _ => none

end Construction

end DofNumbering
