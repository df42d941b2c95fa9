import DofNumbering.Element.Shape

namespace DofNumbering

/-! Triangles in the plane, as images of the reference triangle. -/

/-- The rows of the derivative of a map of the plane. -/
structure Jacobian (R : Type) where
  xRow : Point R
  yRow : Point R
deriving DecidableEq, Repr

structure LinearTriangle (R : Type) where
  first : Point R
  second : Point R
  third : Point R
deriving DecidableEq, Repr

/-- A triangle with its corners and the midpoints of its edges as nodes. -/
structure QuadraticTriangle (R : Type) where
  first : Point R
  second : Point R
  third : Point R
  firstSecond : Point R
  secondThird : Point R
  thirdFirst : Point R
deriving DecidableEq, Repr

variable {R : Type}

namespace LinearTriangle

def vertices (triangle : LinearTriangle R) : List (Point R) :=
  [triangle.first, triangle.second, triangle.third]

def xCoordinates (triangle : LinearTriangle R) : Shape.Barycentric R :=
  ⟨triangle.first.x, triangle.second.x, triangle.third.x⟩

def yCoordinates (triangle : LinearTriangle R) : Shape.Barycentric R :=
  ⟨triangle.first.y, triangle.second.y, triangle.third.y⟩

variable [Add R] [Sub R] [Mul R] [Div R] [Neg R] [NatCast R]

/-- The triangle on which the shape functions are given. -/
def reference : LinearTriangle R :=
  let one := ((1 : Nat) : R)
  ⟨⟨-one, -one⟩, ⟨one, -one⟩, ⟨-one, one⟩⟩

/-- The sum of three values with the given weights, added from the left. -/
def weightedSum (value weight : Shape.Barycentric R) : R :=
  value.first * weight.first + value.second * weight.second + value.third * weight.third

/-- The point of the triangle at reference coordinates. -/
def map (triangle : LinearTriangle R) (point : Point R) : Point R :=
  let weight := Shape.barycentric point
  ⟨weightedSum triangle.xCoordinates weight, weightedSum triangle.yCoordinates weight⟩

/-- The derivative of the map from the reference triangle, which is constant. -/
def jacobian (triangle : LinearTriangle R) : Jacobian R :=
  let gradient := Shape.barycentricGradients (R := R)
  let xSlopes : Shape.Barycentric R := ⟨gradient.first.x, gradient.second.x, gradient.third.x⟩
  let ySlopes : Shape.Barycentric R := ⟨gradient.first.y, gradient.second.y, gradient.third.y⟩
  ⟨⟨weightedSum triangle.xCoordinates xSlopes, weightedSum triangle.xCoordinates ySlopes⟩,
    ⟨weightedSum triangle.yCoordinates xSlopes, weightedSum triangle.yCoordinates ySlopes⟩⟩

/-- The squared distances of the pairs of corners. -/
def squaredSides (triangle : LinearTriangle R) : List R :=
  [triangle.first.squaredDistance triangle.second, triangle.first.squaredDistance triangle.third,
    triangle.second.squaredDistance triangle.third]

section Longest

variable [LT R] [DecidableLT R]

/-- The larger of two numbers; the second one is left out if it is not a number. -/
def larger (left right : R) : R := if left < right then right else left

/-- The length of the longest side, where lengths are the roots of squared distances. -/
def longestSide (root : R → R) (triangle : LinearTriangle R) : R :=
  (triangle.squaredSides.map root).foldl larger ((0 : Nat) : R)

end Longest

def diameter (triangle : LinearTriangle Float) : Float := triangle.longestSide Float.sqrt

end LinearTriangle

namespace QuadraticTriangle

def vertices (triangle : QuadraticTriangle R) : List (Point R) :=
  [triangle.first, triangle.second, triangle.third, triangle.firstSecond, triangle.secondThird,
    triangle.thirdFirst]

/-- The triangle of the corners, which alone determines the geometry. -/
def linear (triangle : QuadraticTriangle R) : LinearTriangle R :=
  ⟨triangle.first, triangle.second, triangle.third⟩

variable [Add R] [Sub R] [Mul R] [Div R] [Neg R] [NatCast R]

def midpoint (left right : Point R) : Point R := (left + right).scale (Shape.half R)

/-- The triangle with straight edges and their midpoints. -/
def ofLinear (triangle : LinearTriangle R) : QuadraticTriangle R :=
  ⟨triangle.first, triangle.second, triangle.third, midpoint triangle.first triangle.second,
    midpoint triangle.second triangle.third, midpoint triangle.third triangle.first⟩

def reference : QuadraticTriangle R := ofLinear .reference

def map (triangle : QuadraticTriangle R) (point : Point R) : Point R := triangle.linear.map point

def jacobian (triangle : QuadraticTriangle R) : Jacobian R := triangle.linear.jacobian

def diameter (triangle : QuadraticTriangle Float) : Float := triangle.linear.diameter

end QuadraticTriangle

end DofNumbering
