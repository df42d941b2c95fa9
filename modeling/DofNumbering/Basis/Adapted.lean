import DofNumbering.Basis

namespace DofNumbering

/-! Bases that change what another basis reports.

They keep the interface of a basis, but what they report need not fit together.
-/

/-- An index to be written at a local position of one element. -/
structure Override where
  element : Nat
  position : Nat
  index : MultiIndex
deriving DecidableEq, Repr

instance : Decode Override where
  decode? json := (decode? json).map (fun (element, position, index) => ⟨element, position, index⟩)

/-- The element of the first leaf of a tree, or 0 if there is no leaf. -/
def LocalNode.firstElement (node : LocalNode) : Nat :=
  match node.leaves with
  | [] => 0
  | first :: _ => first.element

namespace Basis

/-- Writes those of the overrides that belong to an element. -/
def applyOverrides (element : Nat) (overrides : List Override) : Change Buffer Unit :=
  (overrides.filter (fun change => change.element == element)).forM
    (fun change => Buffer.update (fun _ => .ok change.index) change.position)

/-- The basis with more degrees of freedom, another bound on the local ones and
other indices at some places. -/
def adjusted (basis : Basis) (extraDofs : Nat) (maxNodeSize? : Option Nat)
    (overrides : List Override) : Basis :=
  { basis with
    dimension := do
      let dimension ← basis.dimension
      Index.add dimension extraDofs
    size := fun stem => do
      let size ← basis.size stem
      match stem with
      | [] => Index.add size extraDofs
      | _ :: _ => .ok size
    maxNodeSize :=
      match maxNodeSize? with
      | some bound => .ok bound
      | none => basis.maxNodeSize
    container := .ok .unknown
    indices := fun node => do
      basis.indices node
      applyOverrides node.firstElement overrides }

/-- The basis that keeps its local trees and indices on elements of even number
and takes those of another basis on elements of odd number. -/
def alternating (even odd : Basis) : Basis :=
  let select (element : Nat) := if element % 2 = 0 then even else odd
  { even with
    bindNode := fun _ element offset stride =>
      (select element).bindNode (select element).createNode element offset stride
    indices := fun node => (select node.firstElement).indices node }

end Basis

end DofNumbering
