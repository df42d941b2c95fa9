namespace DofNumbering

/-! Reasons for which an operation stops.

A `Fault` is a broken promise of a caller: an index outside its list, an
arithmetic result outside the machine range, a view queried while unbound.  A
`Failure` is either such a fault or a refusal that the operation reports to a
caller who kept every promise.
-/

inductive NodeKind where
  | leaf
  | power
  | composite
deriving DecidableEq, Repr

def NodeKind.text : NodeKind → String
  | .leaf => "leaf"
  | .power => "power"
  | .composite => "composite"

inductive Fault where
  /-- A result below zero, above the largest index, or a division by zero. -/
  | arithmetic
  | outOfBounds
  /-- A list of a generated mesh, or of a caller, that is longer than memory can ever be. -/
  | capacity
  /-- A buffer with the wrong number of entries. -/
  | lengthMismatch
  | childOfPlaceholder
  | uniformChild (index size : Nat)
  | unlikeVectorChildren
  | emptyComposite
  | powerChild (index count : Nat)
  | compositeChild (index : Nat)
  | memberOfComposite (index count : Nat)
  | unexpectedNode (expected found : NodeKind)
  | zeroStride
  | shapeFunction
  | shapeFunctionOfElement
  | elementOfItself
  | noSuchCodimension (codim : Nat)
  | unlabelledVertex
  | notAnElement
  | foreignElement (index : Nat)
  | unboundView
  | unboundIndexSet
  | indexSetNeedsBoundView
  | foreignView
  | localIndex
  | subspaceOfForeignView
  | subspaceElementsDiffer
  | lostSubspace
  /-- The prefix sizes go deeper than the bound that the caller gave. -/
  | unboundedDepth
deriving DecidableEq, Repr

/-- The text that goes with a fault; some faults have none. -/
def Fault.message : Fault → Option String
  | .capacity => some "capacity overflow"
  | .childOfPlaceholder => some "Value placeholders do not have children."
  | .uniformChild index size =>
      some ("Index " ++ toString index ++ " out of bounds for size " ++ toString size ++ ".")
  | .unlikeVectorChildren =>
      some "All children of a vector descriptor must have the same type."
  | .emptyComposite => some "Composite nodes must have at least one child."
  | .powerChild index count =>
      some ("Child index " ++ toString index ++ " out of bounds for power basis with " ++
        toString count ++ " children.")
  | .compositeChild index =>
      some ("Child index " ++ toString index ++ " out of bounds for composite basis.")
  | .memberOfComposite index count =>
      some ("Child index " ++ toString index ++ " out of bounds for composite basis with " ++
        toString count ++ " children.")
  | .unexpectedNode expected found =>
      some ("Expected " ++ expected.text ++ " node, but got " ++ found.text ++ " node.")
  | .shapeFunction => some "Shape function index out of bounds."
  | .noSuchCodimension codim =>
      some ("Grid view of dimension 2 has no entities of codimension " ++ toString codim ++ ".")
  | .unlabelledVertex => some "Vertices of cells are always labeled"
  | .notAnElement => some "Local views can only be bound to elements."
  | .foreignElement index =>
      some ("Element " ++ toString index ++ " is not contained in the grid view.")
  | .unboundView => some "Local view must be bound."
  | .unboundIndexSet => some "Local index set must be bound."
  | .indexSetNeedsBoundView =>
      some "Local view must be bound before binding local index set."
  | .foreignView => some "Local view belongs to a different basis."
  | .localIndex => some "Local index out of bounds."
  | .lostSubspace => some "Subspace path is validated on construction"
  | _ => none

inductive Failure (ε : Type) where
  | refused (reason : ε)
  | fault (fault : Fault)
deriving DecidableEq, Repr

instance (ε : Type) : MonadLift (Except Fault) (Except (Failure ε)) where
  monadLift result := result.mapError .fault

/-- Refuses with the given reason. -/
def refuse {ε α : Type} (reason : ε) : Except (Failure ε) α :=
  .error (.refused reason)

end DofNumbering
