import DofNumbering.Grid

namespace DofNumbering

/-! The set of all entities of one codimension of a grid view. -/

structure EntitySet where
  grid : GridView
  codim : Nat

namespace EntitySet

def contains (set : EntitySet) (entity : Entity) : Bool :=
  entity.codim == set.codim && set.grid.contains entity

def size (set : EntitySet) : Nat := set.grid.size set.codim

def isEmpty (set : EntitySet) : Bool := set.size == 0

def entities (set : EntitySet) : Entities := set.grid.entities set.codim

end EntitySet

def GridView.elements (grid : GridView) : EntitySet := ⟨grid, 0⟩

end DofNumbering
