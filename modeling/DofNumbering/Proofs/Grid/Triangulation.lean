import DofNumbering.Proofs.Grid.Faces
import DofNumbering.Proofs.Marks

namespace DofNumbering

/-! Grid views of triangles, and those of triangle meshes. -/

namespace GridView

/-- An element whose three vertices and three faces are entities of the grid. -/
structure HasTriangle (grid : GridView) (element : Nat) : Prop where
  vertex : ∀ i < 3, ∃ label < grid.size 2, grid.subEntity element 2 i = .ok label
  face : ∀ i < 3, ∃ label < grid.size 1, grid.subEntity element 1 i = .ok label

/-- The vertices and faces of each element are different ones, and all vertices and
faces are those of elements. -/
structure Conforming (grid : GridView) : Prop where
  triangle : ∀ element < grid.size 0, grid.HasTriangle element
  vertexInjective : ∀ element < grid.size 0, ∀ i < 3, ∀ j < 3,
    grid.subEntity element 2 i = grid.subEntity element 2 j → i = j
  faceInjective : ∀ element < grid.size 0, ∀ i < 3, ∀ j < 3,
    grid.subEntity element 1 i = grid.subEntity element 1 j → i = j
  vertexOnto : ∀ label < grid.size 2, ∃ element < grid.size 0, ∃ i < 3,
    grid.subEntity element 2 i = .ok label
  faceOnto : ∀ label < grid.size 1, ∃ element < grid.size 0, ∃ i < 3,
    grid.subEntity element 1 i = .ok label

/-- All vertices and faces are those of elements, which may be degenerate. -/
structure Covered (grid : GridView) : Prop where
  triangle : ∀ element < grid.size 0, grid.HasTriangle element
  vertexOnto : ∀ label < grid.size 2, ∃ element < grid.size 0, ∃ i < 3,
    grid.subEntity element 2 i = .ok label
  faceOnto : ∀ label < grid.size 1, ∃ element < grid.size 0, ∃ i < 3,
    grid.subEntity element 1 i = .ok label

theorem Conforming.covered {grid : GridView} (conforming : grid.Conforming) : grid.Covered :=
  ⟨conforming.triangle, conforming.vertexOnto, conforming.faceOnto⟩

theorem Covered.vertices_pos {grid : GridView} (covered : grid.Covered) (nonempty : 0 < grid.size 0) :
    0 < grid.size 2 := by
  obtain ⟨label, below, -⟩ := (covered.triangle 0 nonempty).vertex 0 (by decide)
  exact Nat.zero_lt_of_lt below

/-- Without elements there are no entities at all. -/
theorem Conforming.size_eq_zero {grid : GridView} (conforming : grid.Conforming)
    (empty : grid.size 0 = 0) : grid.size 1 = 0 ∧ grid.size 2 = 0 := by
  constructor
  · apply Nat.eq_zero_of_not_pos
    intro some
    obtain ⟨element, below, -⟩ := conforming.faceOnto 0 some
    omega
  · apply Nat.eq_zero_of_not_pos
    intro some
    obtain ⟨element, below, -⟩ := conforming.vertexOnto 0 some
    omega

end GridView

namespace Mesh

variable {R C : Type} [Cell C]

def InBounds (mesh : Mesh R C) : Prop :=
  ∀ cell ∈ mesh.cells, ∀ vertex ∈ Cell.vertices cell, vertex < mesh.vertices.length

instance (mesh : Mesh R C) : Decidable mesh.InBounds :=
  inferInstanceAs (Decidable
    (∀ cell ∈ mesh.cells, ∀ vertex ∈ Cell.vertices cell, vertex < mesh.vertices.length))

/-- The vertices of each cell are different ones. -/
def Distinct (mesh : Mesh R C) : Prop := ∀ cell ∈ mesh.cells, (Cell.vertices cell).Nodup

instance (mesh : Mesh R C) : Decidable mesh.Distinct :=
  inferInstanceAs (Decidable (∀ cell ∈ mesh.cells, (Cell.vertices cell).Nodup))

end Mesh

namespace MeshView

section Cells

variable {R C : Type} [Cell C] {mesh : Mesh R C} {view : MeshView R C} {cell : C}
  {element i vertex : Nat} {face : Segment}

/-- The numbers of all faces of a mesh. -/
def faceLabels (mesh : Mesh R C) : EdgeLabels := (EdgeLabels.labelCells mesh.cells #[] ∅).2

theorem ofMesh_eq_ok (viewed : ofMesh mesh = .ok view) : mesh.InBounds ∧
    view.cells = mesh.cells.toArray ∧
    view.cellFaces = (EdgeLabels.labelCells mesh.cells #[] ∅).1 ∧
    view.numFaces = (faceLabels mesh).size ∧
    view.vertexLabels = labelMarked (vertexMarks mesh) 0 #[] ∧
    view.numVertices = (vertexMarks mesh).count true := by
  by_cases inBounds : mesh.cells.all
      (fun cell => (Cell.vertices cell).all (· < mesh.vertices.length)) = true
  · obtain rfl := Except.ok.inj ((if_pos inBounds).symm.trans viewed)
    simp only [List.all_eq_true, decide_eq_true_eq] at inBounds
    exact ⟨inBounds, rfl, rfl, rfl, rfl, rfl⟩
  · exact absurd ((if_neg inBounds).symm.trans viewed) nofun

/-- Exactly the meshes whose cells refer to their own vertices have views. -/
theorem exists_ofMesh_iff : (∃ view, ofMesh mesh = .ok view) ↔ mesh.InBounds := by
  constructor
  · rintro ⟨view, viewed⟩
    exact (ofMesh_eq_ok viewed).1
  · intro inBounds
    refine ⟨_, if_pos ?_⟩
    simp only [List.all_eq_true, decide_eq_true_eq]
    exact inBounds

theorem size_zero (viewed : ofMesh mesh = .ok view) : view.size 0 = mesh.cells.length := by
  obtain ⟨-, cells, -⟩ := ofMesh_eq_ok viewed
  rw [size, cells, List.size_toArray]

theorem getElem?_vertexMarks : (vertexMarks mesh)[vertex]? = some true ↔
    vertex < mesh.vertices.length ∧ ∃ cell ∈ mesh.cells, vertex ∈ Cell.vertices cell := by
  rw [vertexMarks, Array.getElem?_toList, Index.getElem?_marks]
  by_cases inRange : vertex < mesh.vertices.length <;> simp [inRange]

theorem subEntity_vertex (viewed : ofMesh mesh = .ok view)
    (found : mesh.cells[element]? = some cell)
    (foundVertex : (Cell.vertices cell)[i]? = some vertex) :
    (vertexMarks mesh)[vertex]? = some true ∧
      view.subEntity element 2 i = .ok (((vertexMarks mesh).take vertex).count true) := by
  obtain ⟨inBounds, cells, -, -, labels, -⟩ := ofMesh_eq_ok viewed
  have inCell : vertex ∈ Cell.vertices cell := List.mem_of_getElem? foundVertex
  have inCells : cell ∈ mesh.cells := List.mem_of_getElem? found
  have marked : (vertexMarks mesh)[vertex]? = some true :=
    getElem?_vertexMarks.mpr ⟨inBounds cell inCells vertex inCell, cell, inCells, inCell⟩
  have labelled : view.vertexLabels[vertex]? =
      some (some (((vertexMarks mesh).take vertex).count true)) := by
    have numbered := @getElem?_labelMarked _ _ 0 #[] marked
    rw [labels]
    simpa using numbered
  have foundCell : view.cells[element]? = some cell := by rw [cells, List.getElem?_toArray, found]
  refine ⟨marked, ?_⟩
  simp only [subEntity, Index.lookUp, Index.entry, foundCell, foundVertex, labelled, ok_bind]

theorem exists_vertex {label : Nat} (viewed : ofMesh mesh = .ok view)
    (below : label < view.numVertices) : ∃ element cell i vertex,
      mesh.cells[element]? = some cell ∧ (Cell.vertices cell)[i]? = some vertex ∧
        view.subEntity element 2 i = .ok label := by
  obtain ⟨-, -, -, -, -, count⟩ := ofMesh_eq_ok viewed
  rw [count] at below
  obtain ⟨vertex, marked, rfl⟩ := exists_marked below
  obtain ⟨-, cell, inCells, inCell⟩ := getElem?_vertexMarks.mp marked
  obtain ⟨element, found⟩ := List.mem_iff_getElem?.mp inCells
  obtain ⟨i, foundVertex⟩ := List.mem_iff_getElem?.mp inCell
  exact ⟨element, cell, i, vertex, found, foundVertex, (subEntity_vertex viewed found foundVertex).2⟩

theorem faceLabels_numbers (mesh : Mesh R C) : ∃ known, (faceLabels mesh).Numbers known ∧
    ∀ edge, edge ∈ known ↔ edge ∈ EdgeLabels.edgesOf mesh.cells := by
  obtain ⟨_, -, -, -, known, numbers, members⟩ :=
    EdgeLabels.labelCells_spec EdgeLabels.numbers_empty mesh.cells #[]
  exact ⟨known, numbers, fun edge => by simp [members]⟩

/-- A cell keeps the numbers of its faces, in their order. -/
theorem exists_cellFaces (viewed : ofMesh mesh = .ok view)
    (found : mesh.cells[element]? = some cell) :
    ∃ numbers, view.cellFaces[element]? = some numbers ∧
      numbers.map some = (Cell.faces cell).map (fun face => (faceLabels mesh).get? face.edge) := by
  obtain ⟨-, -, cellFaces, -⟩ := ofMesh_eq_ok viewed
  obtain ⟨faces, listed, labelled, -⟩ :=
    EdgeLabels.labelCells_spec EdgeLabels.numbers_empty mesh.cells #[]
  have labels : faces.map (List.map some) = mesh.cells.map (fun cell =>
      (Cell.faces cell).map (fun face => (faceLabels mesh).get? face.edge)) := labelled
  obtain ⟨numbers, foundNumbers, sameFaces⟩ : ∃ numbers, faces[element]? = some numbers ∧
      numbers.map some = (Cell.faces cell).map (fun face => (faceLabels mesh).get? face.edge) := by
    simpa [found] using congrArg (·[element]?) labels
  refine ⟨numbers, ?_, sameFaces⟩
  rw [cellFaces, ← Array.getElem?_toList, listed]
  simpa using foundNumbers

theorem subEntity_face (viewed : ofMesh mesh = .ok view)
    (found : mesh.cells[element]? = some cell) (foundFace : (Cell.faces cell)[i]? = some face) :
    ∃ label, (faceLabels mesh).get? face.edge = some label ∧
      view.subEntity element 1 i = .ok label := by
  obtain ⟨numbers, foundNumbers, sameFaces⟩ := exists_cellFaces viewed found
  obtain ⟨label, foundLabel, labelFound⟩ : ∃ label, numbers[i]? = some label ∧
      some label = (faceLabels mesh).get? face.edge := by
    simpa [foundFace] using congrArg (·[i]?) sameFaces
  refine ⟨label, labelFound.symm, ?_⟩
  simp only [subEntity, Index.lookUp, Index.entry, foundNumbers, foundLabel, ok_bind]

theorem exists_face {label : Nat} (viewed : ofMesh mesh = .ok view)
    (below : label < view.numFaces) : ∃ element cell i face,
      mesh.cells[element]? = some cell ∧ (Cell.faces cell)[i]? = some face ∧
        view.subEntity element 1 i = .ok label := by
  obtain ⟨-, -, -, count, -⟩ := ofMesh_eq_ok viewed
  obtain ⟨known, numbers, members⟩ := faceLabels_numbers mesh
  rw [count] at below
  obtain ⟨edge, labelled⟩ := numbers.onto label below
  have isEdge := (members edge).mp ((numbers.known edge).mp ⟨label, labelled⟩)
  obtain ⟨cell, inCells, isFace⟩ := List.mem_flatMap.mp isEdge
  obtain ⟨face, inFaces, rfl⟩ := List.mem_map.mp isFace
  obtain ⟨element, found⟩ := List.mem_iff_getElem?.mp inCells
  obtain ⟨i, foundFace⟩ := List.mem_iff_getElem?.mp inFaces
  obtain ⟨label', labelled', answer⟩ := subEntity_face viewed found foundFace
  obtain rfl : label = label' := Option.some.inj (labelled.symm.trans labelled')
  exact ⟨element, cell, i, face, found, foundFace, answer⟩

/-- An element with at least three vertices and three faces. -/
theorem hasTriangle_of_cell {tag : Nat} (viewed : ofMesh mesh = .ok view)
    (found : mesh.cells[element]? = some cell) (vertices : 3 ≤ (Cell.vertices cell).length)
    (faces : 3 ≤ (Cell.faces cell).length) : (view.toGridView tag).HasTriangle element := by
  obtain ⟨-, -, -, numFaces, -, numVertices⟩ := ofMesh_eq_ok viewed
  constructor
  · intro i inTriangle
    have foundVertex := List.getElem?_eq_getElem (Nat.lt_of_lt_of_le inTriangle vertices)
    obtain ⟨marked, answer⟩ := subEntity_vertex viewed found foundVertex
    exact ⟨_, Nat.lt_of_lt_of_eq (count_take_lt_count marked) numVertices.symm, answer⟩
  · intro i inTriangle
    have foundFace := List.getElem?_eq_getElem (Nat.lt_of_lt_of_le inTriangle faces)
    obtain ⟨label, labelled, answer⟩ := subEntity_face viewed found foundFace
    obtain ⟨known, numbers, -⟩ := faceLabels_numbers mesh
    exact ⟨label, Nat.lt_of_lt_of_eq (numbers.bounded labelled) numFaces.symm, answer⟩

end Cells

section Triangles

variable {R : Type} {mesh : TriangleMesh R} {view : MeshView R Triangle} {cell : Triangle}
  {element tag : Nat}

theorem exists_triangle (viewed : ofMesh mesh = .ok view) (below : element < view.size 0) :
    ∃ cell, mesh.cells[element]? = some cell := by
  rw [size_zero viewed] at below
  exact ⟨_, List.getElem?_eq_getElem below⟩

theorem exists_vertices (cell : Triangle) {i : Nat} (below : i < 3) :
    ∃ vertex, (Cell.vertices cell)[i]? = some vertex :=
  ⟨_, List.getElem?_eq_getElem (show i < (Cell.vertices cell).length from below)⟩

theorem exists_faces (cell : Triangle) {i : Nat} (below : i < 3) :
    ∃ face, (Cell.faces cell)[i]? = some face :=
  ⟨_, List.getElem?_eq_getElem (show i < (Cell.faces cell).length from below)⟩

/-- The faces of a triangle with three different vertices are three different edges. -/
theorem nodup_edges (distinct : (Cell.vertices cell).Nodup) :
    ((Cell.faces cell).map Segment.edge).Nodup := by
  obtain ⟨first, second, third⟩ := cell
  have different : first ≠ second ∧ first ≠ third ∧ second ≠ third := by
    simpa [Cell.vertices, and_assoc] using distinct
  simp only [Cell.faces, List.map_cons, List.map_nil, Segment.edge, List.nodup_cons,
    List.mem_cons, List.not_mem_nil, Edge.mk.injEq, List.nodup_nil, or_false, not_false_eq_true,
    and_true]
  omega

theorem hasTriangle (viewed : ofMesh mesh = .ok view) (below : element < view.size 0) :
    (view.toGridView tag).HasTriangle element := by
  obtain ⟨cell, found⟩ := exists_triangle viewed below
  exact hasTriangle_of_cell viewed found (Nat.le_refl 3) (Nat.le_refl 3)

theorem covered (viewed : ofMesh mesh = .ok view) : (view.toGridView tag).Covered where
  triangle _ below := hasTriangle viewed below
  vertexOnto label below := by
    obtain ⟨element, cell, i, vertex, found, foundVertex, answer⟩ := exists_vertex viewed below
    have inMesh := (List.getElem?_eq_some_iff.mp found).1
    exact ⟨element, Nat.lt_of_lt_of_eq inMesh (size_zero viewed).symm, i,
      (List.getElem?_eq_some_iff.mp foundVertex).1, answer⟩
  faceOnto label below := by
    obtain ⟨element, cell, i, face, found, foundFace, answer⟩ := exists_face viewed below
    have inMesh := (List.getElem?_eq_some_iff.mp found).1
    exact ⟨element, Nat.lt_of_lt_of_eq inMesh (size_zero viewed).symm, i,
      (List.getElem?_eq_some_iff.mp foundFace).1, answer⟩

theorem conforming (viewed : ofMesh mesh = .ok view) (distinct : mesh.Distinct) :
    (view.toGridView tag).Conforming where
  triangle := (covered viewed).triangle
  vertexInjective element below i inTriangle j inTriangle' equal := by
    obtain ⟨cell, found⟩ := exists_triangle viewed below
    obtain ⟨vertex, foundVertex⟩ := exists_vertices cell inTriangle
    obtain ⟨vertex', foundVertex'⟩ := exists_vertices cell inTriangle'
    obtain ⟨marked, answer⟩ := subEntity_vertex viewed found foundVertex
    obtain ⟨marked', answer'⟩ := subEntity_vertex viewed found foundVertex'
    have sameCount := Except.ok.inj (answer.symm.trans (equal.trans answer'))
    obtain rfl := count_take_injective marked marked' sameCount
    exact (List.getElem?_inj inTriangle (distinct cell (List.mem_of_getElem? found))).mp
      (foundVertex.trans foundVertex'.symm)
  faceInjective element below i inTriangle j inTriangle' equal := by
    obtain ⟨cell, found⟩ := exists_triangle viewed below
    obtain ⟨face, foundFace⟩ := exists_faces cell inTriangle
    obtain ⟨face', foundFace'⟩ := exists_faces cell inTriangle'
    obtain ⟨label, labelled, answer⟩ := subEntity_face viewed found foundFace
    obtain ⟨label', labelled', answer'⟩ := subEntity_face viewed found foundFace'
    obtain ⟨known, numbers, -⟩ := faceLabels_numbers mesh
    obtain rfl : label = label' := Except.ok.inj (answer.symm.trans (equal.trans answer'))
    have sameEdge := numbers.injective labelled labelled'
    have inFaces : i < ((Cell.faces cell).map Segment.edge).length := inTriangle
    refine (List.getElem?_inj inFaces (nodup_edges (distinct cell (List.mem_of_getElem? found)))).mp ?_
    rw [List.getElem?_map, List.getElem?_map, foundFace, foundFace']
    exact congrArg some sameEdge
  vertexOnto := (covered viewed).vertexOnto
  faceOnto := (covered viewed).faceOnto

end Triangles

end MeshView

end DofNumbering
