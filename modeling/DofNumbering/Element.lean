import DofNumbering.Element.Triangle

namespace DofNumbering

/-! Lagrange elements on the reference triangle. -/

inductive LagrangeElement where
  | linear
  | quadratic
deriving DecidableEq, Repr

namespace LagrangeElement

def supportedOrders : List Nat := [1, 2]

def ofOrder? : Nat → Option LagrangeElement
  | 1 => some .linear
  | 2 => some .quadratic
  | _ => none

def order : LagrangeElement → Nat
  | .linear => 1
  | .quadratic => 2

/-- The number of shape functions. -/
def size : LagrangeElement → Nat
  | .linear => 3
  | .quadratic => 6

def name : LagrangeElement → String
  | .linear => "Linear"
  | .quadratic => "Quadratic"

def toJson (element : LagrangeElement) : Json := .text element.name

def ofJson? (json : Json) : Option LagrangeElement :=
  match json.unitCase? Json.maxNesting with
  | some "Linear" => some .linear
  | some "Quadratic" => some .quadratic
  | _ => none

variable {R : Type} [Add R] [Sub R] [Mul R] [Div R] [Neg R] [NatCast R]

/-- The points of the reference triangle that belong to the shape functions. -/
def nodes : LagrangeElement → List (Point R)
  | .linear => LinearTriangle.reference.vertices
  | .quadratic => QuadraticTriangle.reference.vertices

def values : LagrangeElement → Point R → List R
  | .linear, point => Shape.linear point
  | .quadratic, point => Shape.quadratic point

def gradients : LagrangeElement → Point R → List (Point R)
  | .linear, _ => Shape.linearGradients
  | .quadratic, point => Shape.quadraticGradients point

/-- The values at a point for a buffer of numbers, which has to have one for each function. -/
def fillValues (element : LagrangeElement) (entries : Nat) (point : Point R) :
    Except Fault (List R) :=
  Shape.fill (element.values point) entries

/-- The gradients at a point for a buffer of columns of two numbers, which has to have one for
each function. -/
def fillGradients (element : LagrangeElement) (columns : Nat) (point : Point R) :
    Except Fault (List (Point R)) :=
  Shape.fill (element.gradients point) columns

end LagrangeElement

end DofNumbering
