import DofNumbering.Local.IndexSet
import DofNumbering.Refusal

namespace DofNumbering

/-! The restriction of a basis to a subtree.

Nothing is renumbered: the degrees of freedom of a subspace have the indices
that they have in the whole basis.
-/

structure Subspace where
  root : Basis
  path : List Nat
  /-- The description of the subtree. -/
  description : Description

namespace Subspace

/-- The subtree at a path of child numbers, if there is a node. -/
def create (root : Basis) (path : List Nat) : Except Refusal Subspace :=
  match root.description.get? path with
  | some description => .ok ⟨root, path, description⟩
  | none => .error (.invalidPath path)

/-- The subtree at a path within this one. -/
def subspace (space : Subspace) (path : List Nat) : Except Refusal Subspace :=
  create space.root (space.path ++ path)

/-- The subtree of a bound view of the whole basis. -/
def tree (space : Subspace) (view : LocalView) : Except Fault LocalNode :=
  if view.basis.tag = space.root.tag then do
    let tree ← view.boundTree
    match tree.descendant? space.path with
    | some node => .ok node
    | none => .error .lostSubspace
  else .error .subspaceOfForeignView

def localSize (space : Subspace) (view : LocalView) : Except Fault Nat := do
  let tree ← space.tree view
  .ok tree.size

/-- The indices of the degrees of freedom of the subtree, leaf by leaf. -/
def indices (space : Subspace) (view : LocalView) (set : LocalIndexSet) :
    Except Fault (List MultiIndex) :=
  if view.element = set.element then do
    let tree ← space.tree view
    let positions ← tree.localIndices
    positions.mapM set.index
  else .error .subspaceElementsDiffer

end Subspace

end DofNumbering
