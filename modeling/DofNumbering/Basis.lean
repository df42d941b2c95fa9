import DofNumbering.Change
import DofNumbering.Description
import DofNumbering.Descriptor
import DofNumbering.Grid
import DofNumbering.Local.Tree
import DofNumbering.MultiIndex

namespace DofNumbering

/-! Bases of function spaces, by their numbering of degrees of freedom.

A basis is one node of a tree of bases.  It numbers its degrees of freedom by
multi-indices, tells how many values the next entry of an index can have, and
keeps the local tree of an element.
-/

/-- The multi-indices of the local degrees of freedom, by local index. -/
abbrev Buffer := Array MultiIndex

/-- A buffer of indices without entries. -/
def Buffer.blank (size : Nat) : Buffer := Array.replicate size []

/-- Changes the index at a position that has to exist. -/
def Buffer.update (change : MultiIndex → Except Fault MultiIndex) (position : Nat) :
    Change Buffer Unit :=
  fun buffer =>
    match buffer[position]? with
    | none => .error .outOfBounds buffer
    | some old =>
        match change old with
        | .ok new => .ok () (buffer.setIfInBounds position new)
        | .error fault => .error fault buffer

/-- Two bases are the same instance exactly if they have the same tag. -/
structure Basis where
  tag : Nat
  grid : GridView
  /-- A bound on the number of entries of the indices. -/
  maxIndexLength : Nat
  /-- The number of global degrees of freedom. -/
  dimension : Except Fault Nat
  /-- The number of values of the entry after the ones chosen so far; it is zero
  after a whole index. -/
  size : (stem : List Nat) → Except Fault Nat
  /-- A bound on the number of local degrees of freedom. -/
  maxNodeSize : Except Fault Nat
  /-- The container that the indices address. -/
  container : Except Fault Descriptor
  description : Description
  /-- The local tree before it is bound. -/
  createNode : LocalNode
  /-- The local tree on an element; degree of freedom `j` of the tree gets the
  local index `offset + j * stride`. -/
  bindNode : (node : LocalNode) → (element offset stride : Nat) → Except Fault LocalNode
  /-- Writes the index of each degree of freedom of a bound tree at its local index. -/
  indices : (node : LocalNode) → Change Buffer Unit

namespace Basis

/-- The same basis as another instance. -/
def withTag (tag : Nat) (basis : Basis) : Basis := { basis with tag }

/-- Binds the children of a node from the left.  The place of a child depends on
its number and on the size of the children before it; the result has the bound
children and their common size. -/
def bindChildren (place : (child size : Nat) → Except Fault (Nat × Nat))
    (bind : (child : Nat) → LocalNode → (offset stride : Nat) → Except Fault LocalNode) :
    (child size : Nat) → List LocalNode → Except Fault (List LocalNode × Nat)
  | _, size, [] => .ok ([], size)
  | child, size, node :: rest => do
      let (offset, stride) ← place child size
      let bound ← bind child node offset stride
      let next ← Index.add size bound.size
      let (others, total) ← bindChildren place bind (child + 1) next rest
      .ok (bound :: others, total)

/-- Writes the indices of the children of a node from the left.  Those that a
child has written are turned into indices of the node before the next child
writes. -/
def writeChildren (write : (child : Nat) → LocalNode → Change Buffer Unit)
    (merge : (child : Nat) → Except Fault (MultiIndex → Except Fault MultiIndex)) :
    (child : Nat) → List LocalNode → Change Buffer Unit
  | _, [] => pure ()
  | child, node :: rest => do
      write child node
      let change ← merge child
      let positions ← node.localIndices
      positions.forM (Buffer.update change)
      writeChildren write merge (child + 1) rest

end Basis

end DofNumbering
