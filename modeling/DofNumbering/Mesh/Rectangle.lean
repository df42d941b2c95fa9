import DofNumbering.Mesh

namespace DofNumbering.Mesh

/-! Uniform meshes of rectangles.

The vertices are numbered row by row, from the top left corner in the direction
of growing `x` and falling `y`.  A side of the rectangle has a whole number of
unit lengths, and each of these is divided into the same number of cells.
-/

variable {R : Type} [Add R] [Mul R] [Div R] [Neg R] [NatCast R]

/-- The number of the vertex in a column and a row of a rectangle with the given
number of cells in a row. -/
def rectangleVertex (columns column row : Nat) : Nat := (columns + 1) * row + column

/-- The vertices of the cell run counter-clockwise from its lower left corner. -/
def rectangleCell (columns column row : Nat) : Quadrilateral :=
  ⟨rectangleVertex columns column (row + 1), rectangleVertex columns (column + 1) (row + 1),
    rectangleVertex columns (column + 1) row, rectangleVertex columns column row⟩

def rectanglePoint (cellSize : R) (topLeft : Point R) (column row : Nat) : Point R :=
  topLeft + Point.scale ⟨(column : R), -(row : R)⟩ cellSize

/-- The values at the places of a table, row by row. -/
def rowByRow {α : Type} (columns rows : Nat) (value : Nat → Nat → α) : List α :=
  (List.range rows).flatMap (fun row => (List.range columns).map (fun column => value column row))

def ofRectangle (cellSize : R) (columns rows : Nat) (topLeft : Point R) : QuadMesh R :=
  ⟨rowByRow (columns + 1) (rows + 1) (rectanglePoint cellSize topLeft),
    rowByRow columns rows (rectangleCell columns)⟩

/-- The uniform mesh of a rectangle.  It is empty if one of the counts is zero.  Each point
has two coordinates of eight bytes, and each cell four vertex numbers. -/
def rectangle (unitLength : R) (unitsX unitsY cellsPerUnit : Nat) (topLeft : Point R) :
    Except Fault (QuadMesh R) :=
  if cellsPerUnit = 0 ∨ unitsX = 0 ∨ unitsY = 0 then .ok ⟨[], []⟩
  else do
    let columns ← Index.mul unitsX cellsPerUnit
    let rows ← Index.mul unitsY cellsPerUnit
    Index.reserve ((columns + 1) * (rows + 1)) 16
    Index.reserve (columns * rows) 32
    .ok (ofRectangle (unitLength / (cellsPerUnit : R)) columns rows topLeft)

/-- Splits a mesh whose triangles fit into memory; each has three vertex numbers of eight
bytes. -/
def splitAll (mesh : QuadMesh R) : Except Fault (TriangleMesh R) := do
  Index.reserve (2 * mesh.cells.length) 24
  .ok mesh.split

/-- Splits every cell of the uniform mesh of a rectangle into two triangles. -/
def rectangleTriangles (unitLength : R) (unitsX unitsY cellsPerUnit : Nat) (topLeft : Point R) :
    Except Fault (TriangleMesh R) := do
  let mesh ← rectangle unitLength unitsX unitsY cellsPerUnit topLeft
  splitAll mesh

/-- The unit square with the given number of cells along each side. -/
def unitSquare (R : Type) [Add R] [Mul R] [Div R] [Neg R] [NatCast R] (cellsPerSide : Nat) :
    Except Fault (QuadMesh R) :=
  rectangle ((1 : Nat) : R) 1 1 cellsPerSide ⟨((0 : Nat) : R), ((1 : Nat) : R)⟩

def unitSquareTriangles (R : Type) [Add R] [Mul R] [Div R] [Neg R] [NatCast R]
    (cellsPerSide : Nat) : Except Fault (TriangleMesh R) := do
  let mesh ← unitSquare R cellsPerSide
  splitAll mesh

end DofNumbering.Mesh
