import DofNumbering.Grid

namespace DofNumbering

/-! Grid views given by tables. -/

structure GridTable where
  dimension : Nat
  /-- The number of entities by codimension; there are none beyond the list. -/
  sizes : List Nat
  /-- The subentities by element, codimension and local number. -/
  cells : List (List (List Nat))
deriving DecidableEq, Repr

namespace GridTable

def size (table : GridTable) (codim : Nat) : Nat := table.sizes[codim]?.getD 0

def numSubEntities (table : GridTable) (element codim : Nat) : Except Fault Nat := do
  let cell ← Index.entry table.cells element
  .ok ((cell[codim]?.map List.length).getD 0)

def subEntity (table : GridTable) (element codim position : Nat) : Except Fault Nat := do
  let cell ← Index.entry table.cells element
  let subEntities ← Index.entry cell codim
  Index.entry subEntities position

def toGridView (table : GridTable) (tag : Nat) : GridView where
  tag := tag
  dimension := table.dimension
  size := table.size
  numSubEntities := table.numSubEntities
  subEntity := table.subEntity

end GridTable

end DofNumbering
