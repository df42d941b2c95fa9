import DofNumbering.Local.View

namespace DofNumbering

/-! The global indices of the degrees of freedom of one element.

The indices are computed when the set is bound, so it keeps describing that
element when the view goes on to another one.  The buffer never shrinks, and
what is behind the first `size` entries is left over from earlier elements.
-/

structure LocalIndexSet where
  basis : Basis
  element : Option Entity
  size : Nat
  buffer : Buffer

namespace LocalIndexSet

def create (basis : Basis) : LocalIndexSet := ⟨basis, none, 0, #[]⟩

/-- The buffer with at least the given number of entries. -/
def grown (buffer : Buffer) (size : Nat) : Buffer :=
  buffer ++ Buffer.blank (size - buffer.size)

/-- Binds the set to the element of a view.  When a fault stops the writing, the
set keeps its element and its size, but not the indices that were written over. -/
def bind (view : LocalView) : Change LocalIndexSet Unit := fun set =>
  if view.isBound then
    if view.basis.tag = set.basis.tag then
      let size := view.tree.size
      let buffer := grown set.buffer size
      let others := buffer.extract size buffer.size
      match set.basis.indices view.tree (buffer.extract 0 size) with
      | .ok _ written =>
          .ok () { set with element := view.element, size, buffer := written ++ others }
      | .error fault written => .error fault { set with buffer := written ++ others }
    else .error .foreignView set
  else .error .indexSetNeedsBoundView set

def unbind (set : LocalIndexSet) : LocalIndexSet := { set with element := none, size := 0 }

def isBound (set : LocalIndexSet) : Bool := set.element.isSome

/-- The number of local degrees of freedom of the bound element. -/
def boundSize (set : LocalIndexSet) : Except Fault Nat :=
  if set.isBound then .ok set.size else .error .unboundIndexSet

/-- The global index of a local degree of freedom. -/
def index (set : LocalIndexSet) (position : Nat) : Except Fault MultiIndex :=
  if set.isBound then
    if position < set.size then Index.lookUp set.buffer position else .error .localIndex
  else .error .unboundIndexSet

/-- The global indices of the bound element, by local index. -/
def indices (set : LocalIndexSet) : Except Fault (List MultiIndex) :=
  if set.isBound then .ok (set.buffer.toList.take set.size) else .error .unboundIndexSet

end LocalIndexSet

/-- A new view of an element, and a new index set that is bound to it. -/
def bindFresh (basis : Basis) (element : Nat) : Except Fault (LocalView × LocalIndexSet) := do
  let view ← (LocalView.create basis).bind (Entity.element element)
  let set ← (LocalIndexSet.bind view).result (.create basis)
  .ok (view, set)

/-- Calls `inside` with the view bound to an entity and the set bound to the
view.  Afterwards both are unbound, except for what could not be bound. -/
def withBound {α : Type} (view : LocalView) (set : LocalIndexSet) (entity : Entity)
    (inside : LocalView → LocalIndexSet → α) : Except Fault α × LocalView × LocalIndexSet :=
  match view.bind entity with
  | .error fault => (.error fault, view, set)
  | .ok boundView =>
      match LocalIndexSet.bind boundView set with
      | .error fault left => (.error fault, boundView.unbind, left)
      | .ok _ boundSet => (.ok (inside boundView boundSet), boundView.unbind, boundSet.unbind)

end DofNumbering
