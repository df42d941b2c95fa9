import DofNumbering.Json.Codec

namespace DofNumbering

/-! Points of the plane.

Coordinates are of any type with the arithmetic operations at hand: double
precision numbers when the library runs, exact fractions when it is reasoned
about.  Whole constants enter as casts of natural numbers.
-/

instance floatNatCast : NatCast Float := ⟨Float.ofNat⟩

structure Point (R : Type) where
  x : R
  y : R
deriving DecidableEq, BEq, Repr

namespace Point

variable {R : Type}

instance [Add R] : Add (Point R) := ⟨fun left right => ⟨left.x + right.x, left.y + right.y⟩⟩

def scale [Mul R] (point : Point R) (factor : R) : Point R := ⟨point.x * factor, point.y * factor⟩

def squaredDistance [Add R] [Sub R] [Mul R] (left right : Point R) : R :=
  (right.x - left.x) * (right.x - left.x) + (right.y - left.y) * (right.y - left.y)

/-- The affine map with the matrix rows `(a, b)` and `(c, d)` and a shift. -/
def affine [Add R] [Mul R] (a b c d : R) (shift point : Point R) : Point R :=
  ⟨a * point.x + b * point.y + shift.x, c * point.x + d * point.y + shift.y⟩

def toJson (scalar : R → Json) (point : Point R) : Json := .array [scalar point.x, scalar point.y]

def ofJson? (scalar? : Json → Option R) : Json → Option (Point R)
  | .array [x, y] => do
      let x ← scalar? x
      let y ← scalar? y
      some ⟨x, y⟩
  | _ => none

instance [Encode R] : Encode (Point R) := ⟨toJson encode⟩
instance [Decode R] : Decode (Point R) := ⟨ofJson? decode?⟩

end Point

/-- Reads a number in double precision, however it is written. -/
def Json.float? : Json → Option Float
  | .number value => some value.toFloat
  | _ => none

end DofNumbering
