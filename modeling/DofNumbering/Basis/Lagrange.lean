import DofNumbering.Basis
import DofNumbering.Refusal

namespace DofNumbering

/-! Continuous scalar Lagrange bases on triangle grids.

Every vertex has one degree of freedom, and for order 2 so has every edge.  Those
of the vertices are numbered by the vertices; those of the edges follow, numbered
by the edges.
-/

structure LagrangeBasis where
  grid : GridView
  finite : LagrangeElement
  dimension : Nat

namespace LagrangeBasis

/-- Refuses an element that is not a triangle. -/
def checkElement (grid : GridView) (element : Nat) : Except (Failure Refusal) Unit := do
  let numVertices ← grid.numSubEntities element 2
  if numVertices = 3 then .ok () else refuse (.unsupportedCell element numVertices)

/-- The number of degrees of freedom on a grid. -/
def dofCount (grid : GridView) : LagrangeElement → Except Fault Nat
  | .linear => .ok (grid.size 2)
  | .quadratic => Index.add (grid.size 2) (grid.size 1)

def create (grid : GridView) (order : Nat) : Except (Failure Refusal) LagrangeBasis :=
  match LagrangeElement.ofOrder? order with
  | none => refuse (.unsupportedOrder order LagrangeElement.supportedOrders)
  | some finite =>
      if grid.dimension = 2 then do
        Index.visit (fun _ element => checkElement grid element) 0 (grid.size 0) ()
        let dimension ← dofCount grid finite
        .ok ⟨grid, finite, dimension⟩
      else refuse (.dimensionMismatch 2 grid.dimension)

/-- The number of a shape function of an element.  Shape function `3 + i` belongs
to face `i` of the triangle. -/
def globalIndex (basis : LagrangeBasis) (element j : Nat) : Except Fault Nat :=
  if j < basis.finite.size then
    if j < 3 then basis.grid.subEntity element 2 j
    else do
      let face ← basis.grid.subEntity element 1 (j - 3)
      Index.add (basis.grid.size 2) face
  else .error .shapeFunctionOfElement

def size (basis : LagrangeBasis) : List Nat → Nat
  | [] => basis.dimension
  | _ :: _ => 0

/-- Writes the index of one shape function of a leaf. -/
def writeIndex (basis : LagrangeBasis) (leaf : LeafNode) (j : Nat) : Change Buffer Unit := do
  let position ← leaf.localIndex j
  Buffer.update (fun _ => (basis.globalIndex leaf.element j).map MultiIndex.flat) position

def indices (basis : LagrangeBasis) (node : LocalNode) : Change Buffer Unit := do
  let leaf ← node.expectLeaf
  (List.range leaf.size).forM (basis.writeIndex leaf)

def bindNode (node : LocalNode) (element offset stride : Nat) : Except Fault LocalNode := do
  let leaf ← node.expectLeaf
  let bound ← leaf.bind element offset stride
  .ok (.leaf bound)

def toBasis (basis : LagrangeBasis) : Basis where
  tag := 0
  grid := basis.grid
  maxIndexLength := 1
  dimension := .ok basis.dimension
  size stem := .ok (basis.size stem)
  maxNodeSize := .ok basis.finite.size
  container := .ok (Descriptor.flatVector basis.dimension)
  description := .lagrange basis.finite.order
  createNode := .leaf (.unbound basis.finite)
  bindNode := bindNode
  indices := basis.indices

end LagrangeBasis

end DofNumbering
