import DofNumbering.Fault
import DofNumbering.MultiIndex

namespace DofNumbering

/-! Reasons for which the construction of a mesh or a basis is refused. -/

inductive Refusal where
  | unsupportedOrder (order : Nat) (supported : List Nat)
  | mismatchedGridViews (child : Nat)
  | dimensionMismatch (expected actual : Nat)
  | invalidPath (path : List Nat)
  | invalidConnectivity (cell vertex numVertices : Nat)
  | unsupportedCell (element numVertices : Nat)
deriving DecidableEq, Repr

def Refusal.message : Refusal → String
  | .unsupportedOrder order supported =>
      "Lagrange basis of order " ++ toString order ++ " is not supported (supported orders: " ++
        MultiIndex.listText supported ++ ")."
  | .mismatchedGridViews child =>
      "Child " ++ toString child ++
        " of composite basis is defined on a different grid view than child 0."
  | .dimensionMismatch expected actual =>
      "Expected grid of dimension " ++ toString expected ++ ", but grid has dimension " ++
        toString actual ++ "."
  | .invalidPath path =>
      "Path " ++ MultiIndex.listText path ++ " does not designate a node in the basis tree."
  | .invalidConnectivity cell vertex numVertices =>
      "Cell " ++ toString cell ++ " references vertex " ++ toString vertex ++
        ", but the mesh only has " ++ toString numVertices ++ " vertices."
  | .unsupportedCell element numVertices =>
      "Element " ++ toString element ++ " has " ++ toString numVertices ++
        " vertices, but only triangles are supported."

end DofNumbering
