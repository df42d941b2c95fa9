import DofNumbering.Json.Codec

namespace DofNumbering

/-! Cells of a mesh, given by the numbers of their vertices.

Face `i` of a polygon joins its vertex `i` with the next one around it.
-/

structure Segment where
  first : Nat
  second : Nat
deriving DecidableEq, BEq, Repr

structure Triangle where
  first : Nat
  second : Nat
  third : Nat
deriving DecidableEq, BEq, Repr

/-- The vertices run counter-clockwise. -/
structure Quadrilateral where
  first : Nat
  second : Nat
  third : Nat
  fourth : Nat
deriving DecidableEq, BEq, Repr

class Cell (C : Type) where
  vertices : C → List Nat
  faces : C → List Segment

instance : Cell Unit where
  vertices _ := []
  faces _ := []

instance : Cell Segment where
  vertices cell := [cell.first, cell.second]
  faces _ := []

instance : Cell Triangle where
  vertices cell := [cell.first, cell.second, cell.third]
  faces cell := [⟨cell.first, cell.second⟩, ⟨cell.second, cell.third⟩, ⟨cell.third, cell.first⟩]

instance : Cell Quadrilateral where
  vertices cell := [cell.first, cell.second, cell.third, cell.fourth]
  faces cell := [⟨cell.first, cell.second⟩, ⟨cell.second, cell.third⟩,
    ⟨cell.third, cell.fourth⟩, ⟨cell.fourth, cell.first⟩]

/-- The triangles on the two sides of the diagonal through the first vertex. -/
def Quadrilateral.split (cell : Quadrilateral) : List Triangle :=
  [⟨cell.first, cell.second, cell.third⟩, ⟨cell.first, cell.third, cell.fourth⟩]

/-- The two ends of a face, whichever comes first. -/
structure Edge where
  low : Nat
  high : Nat
deriving DecidableEq, Repr

namespace Edge

/-- Edges are ordered by their lower ends first. -/
def compare : Edge → Edge → Ordering := compareLex (compareOn Edge.low) (compareOn Edge.high)

theorem compare_eq_eq_iff {left right : Edge} : compare left right = .eq ↔ left = right := by
  cases left
  cases right
  simp [compare, compareLex, compareOn]

instance : Std.TransCmp compare := inferInstanceAs (Std.TransCmp (compareLex _ _))

instance : Std.LawfulEqCmp compare := ⟨compare_eq_eq_iff.mp⟩

end Edge

def Segment.edge (face : Segment) : Edge := ⟨min face.first face.second, max face.first face.second⟩

def Segment.ofJson? (json : Json) : Option Segment :=
  match json.indices? with
  | some [first, second] => some ⟨first, second⟩
  | _ => none

def Triangle.ofJson? (json : Json) : Option Triangle :=
  match json.indices? with
  | some [first, second, third] => some ⟨first, second, third⟩
  | _ => none

def Quadrilateral.ofJson? (json : Json) : Option Quadrilateral :=
  match json.indices? with
  | some [first, second, third, fourth] => some ⟨first, second, third, fourth⟩
  | _ => none

instance {C : Type} [Cell C] : Encode C := ⟨fun cell => .indices (Cell.vertices cell)⟩
instance : Decode Segment := ⟨Segment.ofJson?⟩
instance : Decode Triangle := ⟨Triangle.ofJson?⟩
instance : Decode Quadrilateral := ⟨Quadrilateral.ofJson?⟩

end DofNumbering
