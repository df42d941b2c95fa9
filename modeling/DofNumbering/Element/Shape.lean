import DofNumbering.Point

namespace DofNumbering.Shape

/-! Lagrange shape functions on the reference triangle.

The reference triangle has the corners (-1, -1), (1, -1) and (-1, 1).  The linear
shape functions are its barycentric coordinates; the quadratic ones are products
of these, first those of the corners, then those of the midpoints of the edges
from corner 0 to 1, from 1 to 2 and from 2 to 0.
-/

variable {R : Type} [Add R] [Sub R] [Mul R] [Div R] [Neg R] [NatCast R]

structure Barycentric (R : Type) where
  first : R
  second : R
  third : R

def half (R : Type) [Div R] [NatCast R] : R := ((1 : Nat) : R) / ((2 : Nat) : R)

def barycentric (point : Point R) : Barycentric R :=
  ⟨-half R * point.x - half R * point.y, half R * point.x + half R, half R * point.y + half R⟩

def linear (point : Point R) : List R :=
  let weight := barycentric point
  [weight.first, weight.second, weight.third]

/-- The gradients of the barycentric coordinates, which are the same at every point. -/
def barycentricGradients : Barycentric (Point R) :=
  ⟨⟨-half R, -half R⟩, ⟨half R, ((0 : Nat) : R)⟩, ⟨((0 : Nat) : R), half R⟩⟩

def linearGradients : List (Point R) :=
  let gradient := barycentricGradients (R := R)
  [gradient.first, gradient.second, gradient.third]

def atCorner (weight : R) : R := weight * (((2 : Nat) : R) * weight - ((1 : Nat) : R))

def atMidpoint (weight weight' : R) : R := ((4 : Nat) : R) * weight * weight'

def quadratic (point : Point R) : List R :=
  let weight := barycentric point
  [atCorner weight.first, atCorner weight.second, atCorner weight.third,
    atMidpoint weight.first weight.second, atMidpoint weight.second weight.third,
    atMidpoint weight.first weight.third]

def gradientAtCorner (weight : R) (gradient : Point R) : Point R :=
  gradient.scale (((4 : Nat) : R) * weight - ((1 : Nat) : R))

def gradientAtMidpoint (weight weight' : R) (gradient gradient' : Point R) : Point R :=
  gradient.scale (((4 : Nat) : R) * weight') + gradient'.scale (((4 : Nat) : R) * weight)

def quadraticGradients (point : Point R) : List (Point R) :=
  let weight := barycentric point
  let gradient := barycentricGradients (R := R)
  [gradientAtCorner weight.first gradient.first,
    gradientAtCorner weight.second gradient.second,
    gradientAtCorner weight.third gradient.third,
    gradientAtMidpoint weight.first weight.second gradient.first gradient.second,
    gradientAtMidpoint weight.second weight.third gradient.second gradient.third,
    gradientAtMidpoint weight.first weight.third gradient.first gradient.third]

/-- Values for a buffer with a given number of entries, which has to fit. -/
def fill {α : Type} (values : List α) (entries : Nat) : Except Fault (List α) :=
  if entries = values.length then .ok values else .error .lengthMismatch

end DofNumbering.Shape
