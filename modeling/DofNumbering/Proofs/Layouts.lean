import DofNumbering.Proofs.Flattening
import DofNumbering.Proofs.IndexTree.Ranks

namespace DofNumbering

/-! Blocked and flat layouts of the same children.

The two layouts give different indices to a degree of freedom, but these have the
same rank.  So flattening tells no difference between the layouts.
-/

namespace Numbering

variable {parts : List Numbering} {part child : Numbering} {blocked : Bool}
  {numElements element i j k count : Nat}

end Numbering

variable {blocked flat child : Basis} {numbering left right : Numbering} {dimension : Nat}

namespace Numbered

variable {grid : GridView} {exponent : Nat} {members : Members} {numbers : Basis → Numbering}

end Numbered

section Layouts

variable {R : Type} {mesh : TriangleMesh R} {view : MeshView R Triangle} {tag : Nat}

end Layouts

end DofNumbering
