import DofNumbering.Element.Triangle
import DofNumbering.Grid
import DofNumbering.Mesh
import Std.Data.TreeMap

namespace DofNumbering

/-! The grid view of a mesh.

Faces that join the same two vertices are one entity.  Faces are numbered in the
order of their first appearance, cell by cell.  The entities of codimension 2
are the vertices to which some cell refers; they keep the order that they have
in the mesh.
-/

structure MeshView (R C : Type) where
  mesh : Mesh R C
  cells : Array C
  /-- The faces of each cell, by number. -/
  cellFaces : Array (List Nat)
  numFaces : Nat
  /-- The number of each vertex of the mesh, if some cell refers to it. -/
  vertexLabels : Array (Option Nat)
  numVertices : Nat

/-- The numbers of edges, which are those below the number of edges. -/
abbrev EdgeLabels := Std.TreeMap Edge Nat Edge.compare

namespace EdgeLabels

/-- The number of an edge; an edge without one gets the next number. -/
def label (labels : EdgeLabels) (edge : Edge) : Nat × EdgeLabels :=
  match labels.get? edge with
  | some number => (number, labels)
  | none => (labels.size, labels.insert edge labels.size)

def labelAll : List Edge → EdgeLabels → List Nat × EdgeLabels
  | [], labels => ([], labels)
  | edge :: rest, labels =>
      let (number, labels) := labels.label edge
      let (others, labels) := labelAll rest labels
      (number :: others, labels)

/-- Puts the numbers of the faces of each cell behind those of the cells before. -/
def labelCells {C : Type} [Cell C] : List C → Array (List Nat) → EdgeLabels →
    Array (List Nat) × EdgeLabels
  | [], cellFaces, labels => (cellFaces, labels)
  | cell :: rest, cellFaces, labels =>
      let (faces, labels) := labelAll ((Cell.faces cell).map Segment.edge) labels
      labelCells rest (cellFaces.push faces) labels

end EdgeLabels

namespace MeshView

variable {R C : Type}

/-- The number of a vertex of the mesh among the vertices of the view. -/
def vertexIndex? (view : MeshView R C) (vertex : Nat) : Option Nat :=
  view.vertexLabels[vertex]?.join

def size (view : MeshView R C) : Nat → Nat
  | 0 => view.cells.size
  | 1 => view.numFaces
  | 2 => view.numVertices
  | _ => 0

/-- Puts the numbers of the marked places, from `next` on, behind the given ones. -/
def labelMarked : List Bool → (next : Nat) → Array (Option Nat) → Array (Option Nat)
  | [], _, labels => labels
  | true :: rest, next, labels => labelMarked rest (next + 1) (labels.push (some next))
  | false :: rest, next, labels => labelMarked rest next (labels.push none)

variable [Cell C]

/-- Marks the vertices to which some cell refers. -/
def vertexMarks (mesh : Mesh R C) : List Bool :=
  (Index.marks mesh.vertices.length (mesh.cells.flatMap Cell.vertices)).toList

/-- The view of a mesh whose cells refer to existing vertices. -/
def ofMesh (mesh : Mesh R C) : Except Fault (MeshView R C) :=
  let numVertices := mesh.vertices.length
  if mesh.cells.all (fun cell => (Cell.vertices cell).all (· < numVertices)) then
    let (cellFaces, labels) := EdgeLabels.labelCells mesh.cells #[] ∅
    let marks := vertexMarks mesh
    .ok {
      mesh
      cells := mesh.cells.toArray
      cellFaces
      numFaces := labels.size
      vertexLabels := labelMarked marks 0 #[]
      numVertices := marks.count true }
  else .error .outOfBounds

def numSubEntities (view : MeshView R C) (element : Nat) : Nat → Except Fault Nat
  | 0 => .ok 1
  | 1 => do
      let faces ← Index.lookUp view.cellFaces element
      .ok faces.length
  | 2 => do
      let cell ← Index.lookUp view.cells element
      .ok (Cell.vertices cell).length
  | _ => .ok 0

def subEntity (view : MeshView R C) (element : Nat) : (codim position : Nat) → Except Fault Nat
  | 0, position => if position = 0 then .ok element else .error .elementOfItself
  | 1, position => do
      let faces ← Index.lookUp view.cellFaces element
      Index.entry faces position
  | 2, position => do
      let cell ← Index.lookUp view.cells element
      let vertex ← Index.entry (Cell.vertices cell) position
      let label ← Index.lookUp view.vertexLabels vertex
      match label with
      | some index => .ok index
      | none => .error .unlabelledVertex
  | codim, _ => .error (.noSuchCodimension codim)

def toGridView (view : MeshView R C) (tag : Nat) : GridView where
  tag := tag
  dimension := 2
  size := view.size
  numSubEntities := view.numSubEntities
  subEntity := view.subEntity

/-- The geometry of an element. -/
def element? (view : MeshView R Triangle) (index : Nat) : Option (LinearTriangle R) := do
  let cell ← view.cells[index]?
  let first ← view.mesh.vertices[cell.first]?
  let second ← view.mesh.vertices[cell.second]?
  let third ← view.mesh.vertices[cell.third]?
  some ⟨first, second, third⟩

end MeshView

end DofNumbering
