import DofNumbering.Basis

namespace DofNumbering

/-! A view of a basis on one element at a time.

The tree is bound in place, so it can be queried only while the view has an
element.
-/

structure LocalView where
  basis : Basis
  element : Option Entity
  tree : LocalNode

namespace LocalView

def create (basis : Basis) : LocalView := ⟨basis, none, basis.createNode⟩

def bind (view : LocalView) (entity : Entity) : Except Fault LocalView :=
  if entity.codim ≠ 0 then .error .notAnElement
  else if view.basis.grid.contains entity then do
    let tree ← view.basis.bindNode view.tree entity.index 0 1
    .ok { view with element := some entity, tree }
  else .error (.foreignElement entity.index)

def unbind (view : LocalView) : LocalView := { view with element := none }

def isBound (view : LocalView) : Bool := view.element.isSome

/-- The number of the bound element, or 0 if there is none. -/
def elementIndex (view : LocalView) : Nat := (view.element.map Entity.index).getD 0

/-- The local tree on the bound element. -/
def boundTree (view : LocalView) : Except Fault LocalNode :=
  if view.isBound then .ok view.tree else .error .unboundView

/-- The number of local degrees of freedom on the bound element. -/
def size (view : LocalView) : Except Fault Nat := do
  let tree ← view.boundTree
  .ok tree.size

/-- A bound on the sizes on all elements, which is known before binding. -/
def maxSize (view : LocalView) : Except Fault Nat := view.basis.maxNodeSize

end LocalView

end DofNumbering
