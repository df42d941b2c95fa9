import DofNumbering.Cell
import DofNumbering.Point
import DofNumbering.Refusal

namespace DofNumbering

/-! Conforming meshes: points, and cells that refer to them by number. -/

structure Mesh (R C : Type) where
  vertices : List (Point R)
  cells : List C
deriving BEq, Repr

abbrev TriangleMesh (R : Type) := Mesh R Triangle

abbrev QuadMesh (R : Type) := Mesh R Quadrilateral

namespace Mesh

variable {R C : Type}

/-- The first cell, from number `index` on, that refers to a vertex out of
range, with its first such vertex. -/
def firstInvalid? [Cell C] (numVertices : Nat) (index : Nat) : List C → Option (Nat × Nat)
  | [] => none
  | cell :: rest =>
      match (Cell.vertices cell).find? (fun vertex => decide (numVertices ≤ vertex)) with
      | some vertex => some (index, vertex)
      | none => firstInvalid? numVertices (index + 1) rest

/-- A mesh whose cells only refer to vertices that exist. -/
def checked [Cell C] (vertices : List (Point R)) (cells : List C) : Except Refusal (Mesh R C) :=
  match firstInvalid? vertices.length 0 cells with
  | some (cell, vertex) => .error (.invalidConnectivity cell vertex vertices.length)
  | none => .ok ⟨vertices, cells⟩

def cellVertices? [Cell C] (mesh : Mesh R C) (cell : Nat) : Option (List Nat) :=
  mesh.cells[cell]?.map Cell.vertices

def transform (move : Point R → Point R) (mesh : Mesh R C) : Mesh R C :=
  { mesh with vertices := mesh.vertices.map move }

def translate [Add R] (shift : Point R) (mesh : Mesh R C) : Mesh R C :=
  mesh.transform (· + shift)

/-- Splits every quadrilateral along the diagonal through its first vertex. -/
def split (mesh : QuadMesh R) : TriangleMesh R :=
  ⟨mesh.vertices, mesh.cells.flatMap Quadrilateral.split⟩

def toJson [Cell C] (scalar : R → Json) (mesh : Mesh R C) : Json :=
  .object [("vertices", .array (mesh.vertices.map (Point.toJson scalar))),
    ("connectivity", .array (mesh.cells.map (fun cell => .indices (Cell.vertices cell))))]

def ofJson? (scalar? : Json → Option R) (cell? : Json → Option C) (json : Json) :
    Option (Mesh R C) :=
  match json.fields? ["vertices", "connectivity"] with
  | some [vertices, cells] => do
      let vertices ← vertices.list? (Point.ofJson? scalar?)
      let cells ← cells.list? cell?
      some ⟨vertices, cells⟩
  | _ => none

end Mesh

end DofNumbering
