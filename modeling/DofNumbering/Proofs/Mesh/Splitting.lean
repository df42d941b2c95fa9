import DofNumbering.Proofs.Grid.VertexNumbers
import DofNumbering.Proofs.Mesh.Orientation
import Mathlib.Data.List.Rotate

namespace DofNumbering

/-! Split quadrilaterals have the topology and the area that they had before.

The two triangles of a quadrilateral have its four faces between them, each in the same
direction, and pass its diagonal once in each direction.  So the views before and after
number the same vertices and tell the same faces apart, although the numbers of the
faces are others.
-/

/-- The area inside of a polygon, negative if its corners run clockwise. -/
def shoelaceArea (corners : List (Point ℚ)) : ℚ :=
  ((corners.zip (corners.rotate 1)).map
    (fun side => side.1.x * side.2.y - side.2.x * side.1.y)).sum / 2

theorem signedArea_add_signedArea (first second third fourth : Point ℚ) :
    (⟨first, second, third⟩ : LinearTriangle ℚ).signedArea +
        (⟨first, third, fourth⟩ : LinearTriangle ℚ).signedArea =
      shoelaceArea [first, second, third, fourth] := by
  simp only [LinearTriangle.signedArea, shoelaceArea, List.rotate_cons_succ, List.rotate_zero,
    List.cons_append, List.nil_append, List.zip_cons_cons, List.zip_nil_left, List.map_cons,
    List.map_nil, List.sum_cons, List.sum_nil]
  ring

namespace Quadrilateral

variable {cell : Quadrilateral} {face : Segment} {i j k vertex : Nat} {triangle : Triangle}

/-- The triangle in front of the diagonal. -/
def lower (cell : Quadrilateral) : Triangle := ⟨cell.first, cell.second, cell.third⟩

/-- The triangle behind the diagonal. -/
def upper (cell : Quadrilateral) : Triangle := ⟨cell.first, cell.third, cell.fourth⟩

/-- Where a face of a quadrilateral is after the split: in the first or in the second
triangle, and at which place. -/
def facePlace : (face : Nat) → Nat × Nat
  | 0 => (0, 0)
  | 1 => (0, 1)
  | 2 => (1, 1)
  | _ => (1, 2)

/-- No face is lost, turned around or doubled; the diagonal is passed in both directions. -/
theorem faces_split_perm : (Cell.faces cell.lower ++ Cell.faces cell.upper).Perm
    (Cell.faces cell ++ [⟨cell.first, cell.third⟩, ⟨cell.third, cell.first⟩]) := by
  obtain ⟨first, second, third, fourth⟩ := cell
  let diagonal : List Segment := [⟨third, first⟩, ⟨first, third⟩]
  let behind : List Segment := [⟨third, fourth⟩, ⟨fourth, first⟩]
  have moved : (diagonal ++ behind).Perm (behind ++ diagonal) := List.perm_append_comm
  have turned : (behind ++ diagonal).Perm (behind ++ diagonal.reverse) :=
    diagonal.reverse_perm.symm.append_left behind
  exact .cons _ (.cons _ (moved.trans turned))

theorem exists_facePlace (foundFace : (Cell.faces cell)[j]? = some face) :
    ∃ triangle, cell.split[(facePlace j).1]? = some triangle ∧
      (Cell.faces triangle)[(facePlace j).2]? = some face := by
  have inCell : j < 4 := (List.getElem?_eq_some_iff.mp foundFace).1
  match j, inCell with
  | 0, _ => exact ⟨cell.lower, rfl, foundFace⟩
  | 1, _ => exact ⟨cell.lower, rfl, foundFace⟩
  | 2, _ => exact ⟨cell.upper, rfl, foundFace⟩
  | 3, _ => exact ⟨cell.upper, rfl, foundFace⟩

theorem mem_vertices_split :
    (∃ triangle ∈ cell.split, vertex ∈ Cell.vertices triangle) ↔ vertex ∈ Cell.vertices cell := by
  simp only [split, Cell.vertices, List.mem_cons, List.not_mem_nil, or_false, exists_eq_or_imp,
    exists_eq_left]
  tauto

end Quadrilateral

namespace Mesh

variable {R : Type} {mesh : QuadMesh R} {cell : Quadrilateral} {triangle : Triangle}
  {face : Segment} {i j k : Nat}

theorem length_split (mesh : QuadMesh R) : mesh.split.cells.length = 2 * mesh.cells.length := by
  have doubled : mesh.split.cells.length = mesh.cells.length * 2 :=
    length_flatMap_of_length (fun _ _ => rfl)
  rw [doubled, Nat.mul_comm]

/-- The triangles of a quadrilateral are next to each other, in the order of the quadrilaterals. -/
theorem getElem?_split (found : mesh.cells[i]? = some cell)
    (foundTriangle : cell.split[k]? = some triangle) :
    mesh.split.cells[2 * i + k]? = some triangle := by
  have sized : ∀ cell ∈ mesh.cells, cell.split.length = 2 := fun _ _ => rfl
  have below : k < 2 := (List.getElem?_eq_some_iff.mp foundTriangle).1
  exact (getElem?_flatMap_of_length sized found below).trans foundTriangle

theorem getElem?_lower (found : mesh.cells[i]? = some cell) :
    mesh.split.cells[2 * i]? = some cell.lower :=
  getElem?_split (k := 0) found rfl

theorem getElem?_upper (found : mesh.cells[i]? = some cell) :
    mesh.split.cells[2 * i + 1]? = some cell.upper :=
  getElem?_split (k := 1) found rfl

theorem exists_face_split (found : mesh.cells[i]? = some cell)
    (foundFace : (Cell.faces cell)[j]? = some face) :
    ∃ triangle, mesh.split.cells[2 * i + (Quadrilateral.facePlace j).1]? = some triangle ∧
      (Cell.faces triangle)[(Quadrilateral.facePlace j).2]? = some face := by
  obtain ⟨triangle, inCell, inTriangle⟩ := Quadrilateral.exists_facePlace foundFace
  exact ⟨triangle, getElem?_split found inCell, inTriangle⟩

theorem referenced_split (mesh : QuadMesh R) : mesh.split.referenced = mesh.referenced := by
  ext vertex
  simp only [referenced, split, List.mem_toFinset, List.mem_flatMap]
  constructor
  · rintro ⟨triangle, ⟨cell, inCells, inSplit⟩, inTriangle⟩
    exact ⟨cell, inCells, Quadrilateral.mem_vertices_split.mp ⟨triangle, inSplit, inTriangle⟩⟩
  · rintro ⟨cell, inCells, inCell⟩
    obtain ⟨triangle, inSplit, inTriangle⟩ := Quadrilateral.mem_vertices_split.mpr inCell
    exact ⟨triangle, ⟨cell, inCells, inSplit⟩, inTriangle⟩

theorem InBounds.split (inBounds : mesh.InBounds) : mesh.split.InBounds := by
  intro triangle inSplit vertex inTriangle
  obtain ⟨cell, inCells, inCell⟩ := List.mem_flatMap.mp inSplit
  exact inBounds cell inCells vertex
    (Quadrilateral.mem_vertices_split.mp ⟨triangle, inCell, inTriangle⟩)

end Mesh

namespace MeshView

section Topology

variable {R : Type} {mesh : QuadMesh R} {view : MeshView R Quadrilateral}
  {splitView : MeshView R Triangle} {cell cell' : Quadrilateral} {triangle : Triangle}
  {face face' : Segment} {i j i' j' k l vertex : Nat}

theorem vertexIndex?_split (viewed : ofMesh mesh = .ok view)
    (splitViewed : ofMesh mesh.split = .ok splitView) (vertex : Nat) :
    splitView.vertexIndex? vertex = view.vertexIndex? vertex := by
  rw [vertexIndex?_eq splitViewed, vertexIndex?_eq viewed, Mesh.referenced_split]

/-- Wherever a vertex is met before and after the split, its number is the same. -/
theorem subEntity_vertex_split (viewed : ofMesh mesh = .ok view)
    (splitViewed : ofMesh mesh.split = .ok splitView) (found : mesh.cells[i]? = some cell)
    (foundVertex : (Cell.vertices cell)[j]? = some vertex)
    (foundTriangle : mesh.split.cells[k]? = some triangle)
    (foundVertex' : (Cell.vertices triangle)[l]? = some vertex) :
    ∃ label, view.subEntity i 2 j = .ok label ∧ splitView.subEntity k 2 l = .ok label := by
  obtain ⟨label, numbered, answer⟩ := exists_vertexIndex viewed found foundVertex
  obtain ⟨label', numbered', answer'⟩ := exists_vertexIndex splitViewed foundTriangle foundVertex'
  rw [vertexIndex?_split viewed splitViewed, numbered] at numbered'
  obtain rfl := Option.some.inj numbered'
  exact ⟨label, answer, answer'⟩

/-- Faces have the same number after the split exactly if they had the same one before:
both say that they join the same two vertices. -/
theorem exists_faces_split_iff (viewed : ofMesh mesh = .ok view)
    (splitViewed : ofMesh mesh.split = .ok splitView)
    (found : mesh.cells[i]? = some cell) (foundFace : (Cell.faces cell)[j]? = some face)
    (found' : mesh.cells[i']? = some cell') (foundFace' : (Cell.faces cell')[j']? = some face') :
    ∃ label label' splitLabel splitLabel',
      view.subEntity i 1 j = .ok label ∧ view.subEntity i' 1 j' = .ok label' ∧
      splitView.subEntity (2 * i + (Quadrilateral.facePlace j).1) 1
        (Quadrilateral.facePlace j).2 = .ok splitLabel ∧
      splitView.subEntity (2 * i' + (Quadrilateral.facePlace j').1) 1
        (Quadrilateral.facePlace j').2 = .ok splitLabel' ∧
      (label = label' ↔ splitLabel = splitLabel') := by
  obtain ⟨label, label', answer, answer', same⟩ :=
    exists_faces_eq_iff viewed found foundFace found' foundFace'
  obtain ⟨triangle, foundTriangle, inTriangle⟩ := Mesh.exists_face_split found foundFace
  obtain ⟨triangle', foundTriangle', inTriangle'⟩ := Mesh.exists_face_split found' foundFace'
  obtain ⟨splitLabel, splitLabel', splitAnswer, splitAnswer', splitSame⟩ :=
    exists_faces_eq_iff splitViewed foundTriangle inTriangle foundTriangle' inTriangle'
  exact ⟨label, label', splitLabel, splitLabel', answer, answer', splitAnswer, splitAnswer',
    same.trans splitSame.symm⟩

end Topology

/-- The areas of the two triangles of a quadrilateral are its area together. -/
theorem exists_areas_split {mesh : QuadMesh ℚ} {splitView : MeshView ℚ Triangle}
    {cell : Quadrilateral} {i : Nat} (splitViewed : ofMesh mesh.split = .ok splitView)
    (found : mesh.cells[i]? = some cell) :
    ∃ corners lower upper, (Cell.vertices cell).map (mesh.vertices[·]?) = corners.map some ∧
      splitView.element? (2 * i) = some lower ∧ splitView.element? (2 * i + 1) = some upper ∧
      lower.signedArea + upper.signedArea = shoelaceArea corners := by
  obtain ⟨lower, isLower, lowerCorners⟩ := exists_element splitViewed (Mesh.getElem?_lower found)
  obtain ⟨upper, isUpper, upperCorners⟩ := exists_element splitViewed (Mesh.getElem?_upper found)
  obtain ⟨first, second, third⟩ := lower
  obtain ⟨first', third', fourth⟩ := upper
  have atFirst : mesh.vertices[cell.first]? = some first := lowerCorners 0
  have atThird : mesh.vertices[cell.third]? = some third := lowerCorners 2
  -- The triangles meet in the two ends of the diagonal.
  obtain rfl : first = first' := Option.some.inj (atFirst.symm.trans (upperCorners 0))
  obtain rfl : third = third' := Option.some.inj (atThird.symm.trans (upperCorners 1))
  have atSecond : mesh.vertices[cell.second]? = some second := lowerCorners 1
  have atFourth : mesh.vertices[cell.fourth]? = some fourth := upperCorners 2
  refine ⟨[first, second, third, fourth], _, _, ?_, isLower, isUpper,
    signedArea_add_signedArea first second third fourth⟩
  simp only [Cell.vertices, List.map_cons, List.map_nil, atFirst, atSecond, atThird, atFourth]

end MeshView

/-- A mesh of quadrilaterals and the triangles into which they are split have the same
faces, apart from the diagonals, and the same vertices, with the same numbers; the numbers
of faces agree with each other before exactly if they do after.  In exact arithmetic, wherever
the vertices are, two triangles have the area of their quadrilateral.  Cells may be
degenerate or repeated. -/
theorem split_keeps_topology {R : Type} (mesh : QuadMesh R) (inBounds : mesh.InBounds) :
    mesh.split.vertices = mesh.vertices ∧ mesh.split.cells.length = 2 * mesh.cells.length ∧
    (∀ (i : Nat) (cell : Quadrilateral), mesh.cells[i]? = some cell →
      mesh.split.cells[2 * i]? = some cell.lower ∧ mesh.split.cells[2 * i + 1]? = some cell.upper ∧
      (Cell.faces cell.lower ++ Cell.faces cell.upper).Perm
        (Cell.faces cell ++ [⟨cell.first, cell.third⟩, ⟨cell.third, cell.first⟩])) ∧
    (∀ points : List (Point ℚ), points.length = mesh.vertices.length →
      ∃ splitView, MeshView.ofMesh (Mesh.split ⟨points, mesh.cells⟩) = .ok splitView ∧
        ∀ (i : Nat) (cell : Quadrilateral), mesh.cells[i]? = some cell →
          ∃ corners lower upper, (Cell.vertices cell).map (points[·]?) = corners.map some ∧
            splitView.element? (2 * i) = some lower ∧
            splitView.element? (2 * i + 1) = some upper ∧
            lower.signedArea + upper.signedArea = shoelaceArea corners) ∧
    ∃ view splitView, MeshView.ofMesh mesh = .ok view ∧ MeshView.ofMesh mesh.split = .ok splitView ∧
      (∀ vertex, splitView.vertexIndex? vertex = view.vertexIndex? vertex) ∧
      splitView.size 2 = view.size 2 ∧
      (∀ (i j k l vertex : Nat) (cell : Quadrilateral) (triangle : Triangle),
        mesh.cells[i]? = some cell → (Cell.vertices cell)[j]? = some vertex →
        mesh.split.cells[k]? = some triangle → (Cell.vertices triangle)[l]? = some vertex →
        ∃ label, view.subEntity i 2 j = .ok label ∧ splitView.subEntity k 2 l = .ok label) ∧
      ∀ (i j : Nat) (cell : Quadrilateral) (face : Segment) (i' j' : Nat) (cell' : Quadrilateral)
        (face' : Segment),
        mesh.cells[i]? = some cell → (Cell.faces cell)[j]? = some face →
        mesh.cells[i']? = some cell' → (Cell.faces cell')[j']? = some face' →
        (∃ triangle, mesh.split.cells[2 * i + (Quadrilateral.facePlace j).1]? = some triangle ∧
          (Cell.faces triangle)[(Quadrilateral.facePlace j).2]? = some face) ∧
        ∃ label label' splitLabel splitLabel',
          view.subEntity i 1 j = .ok label ∧ view.subEntity i' 1 j' = .ok label' ∧
          splitView.subEntity (2 * i + (Quadrilateral.facePlace j).1) 1
            (Quadrilateral.facePlace j).2 = .ok splitLabel ∧
          splitView.subEntity (2 * i' + (Quadrilateral.facePlace j').1) 1
            (Quadrilateral.facePlace j').2 = .ok splitLabel' ∧
          (label = label' ↔ splitLabel = splitLabel') := by
  refine ⟨rfl, Mesh.length_split mesh, ?_, ?_, ?_⟩
  · intro i cell found
    exact ⟨Mesh.getElem?_lower found, Mesh.getElem?_upper found, Quadrilateral.faces_split_perm⟩
  · intro points sameLength
    have pointsInBounds : Mesh.InBounds (⟨points, mesh.cells⟩ : QuadMesh ℚ) :=
      fun cell inCells vertex inCell => sameLength ▸ inBounds cell inCells vertex inCell
    obtain ⟨splitView, splitViewed⟩ := MeshView.exists_ofMesh_iff.mpr pointsInBounds.split
    exact ⟨splitView, splitViewed, fun i cell found =>
      MeshView.exists_areas_split splitViewed found⟩
  · obtain ⟨view, viewed⟩ := MeshView.exists_ofMesh_iff.mpr inBounds
    obtain ⟨splitView, splitViewed⟩ := MeshView.exists_ofMesh_iff.mpr inBounds.split
    refine ⟨view, splitView, viewed, splitViewed,
      MeshView.vertexIndex?_split viewed splitViewed, ?_, ?_, ?_⟩
    · rw [MeshView.size_two splitViewed, MeshView.size_two viewed, Mesh.referenced_split]
    · intro i j k l vertex cell triangle
      exact MeshView.subEntity_vertex_split viewed splitViewed
    · intro i j cell face i' j' cell' face' found foundFace found' foundFace'
      exact ⟨Mesh.exists_face_split found foundFace,
        MeshView.exists_faces_split_iff viewed splitViewed found foundFace found' foundFace'⟩

/-- Cells that are folded, share faces with each other or occur twice. -/
theorem split_keeps_topology_folded :
    Sample.folded.InBounds ∧ (∃ view splitView, MeshView.ofMesh Sample.folded = .ok view ∧
      MeshView.ofMesh Sample.folded.split = .ok splitView ∧
      (List.range 5).map splitView.vertexIndex? = (List.range 5).map view.vertexIndex? ∧
      ∃ label splitLabel, view.subEntity 0 1 1 = .ok label ∧ view.subEntity 1 1 0 = .ok label ∧
        splitView.subEntity 0 1 1 = .ok splitLabel ∧ splitView.subEntity 2 1 0 = .ok splitLabel) ∧
    ∃ splitView lower upper, MeshView.ofMesh
        (Mesh.split ⟨[⟨0, 0⟩, ⟨1, 0⟩, ⟨0, 1⟩, ⟨2, 2⟩], Sample.folded.cells⟩) = .ok splitView ∧
      splitView.element? 2 = some lower ∧ splitView.element? 3 = some upper ∧
      lower.signedArea + upper.signedArea =
        shoelaceArea [⟨0, 1⟩, ⟨1, 0⟩, ⟨2, 2⟩, ⟨0, 0⟩] := by
  have inBounds : Sample.folded.InBounds := by decide
  obtain ⟨-, -, -, areas, view, splitView, viewed, splitViewed, vertices, -, -, faces⟩ :=
    split_keeps_topology Sample.folded inBounds
  obtain rfl : view = Sample.foldedView := Except.ok.inj (viewed.symm.trans Sample.folded_viewed)
  obtain ⟨-, label, label', splitLabel, splitLabel', answer, answer', splitAnswer, splitAnswer',
    same⟩ := faces 0 1 ⟨0, 1, 2, 2⟩ ⟨1, 2⟩ 1 0 ⟨2, 1, 3, 0⟩ ⟨2, 1⟩ rfl rfl rfl rfl
  obtain rfl : 1 = label := Except.ok.inj answer
  obtain rfl : 1 = label' := Except.ok.inj answer'
  obtain rfl := same.mp rfl
  obtain ⟨areaView, areaViewed, halves⟩ := areas [⟨0, 0⟩, ⟨1, 0⟩, ⟨0, 1⟩, ⟨2, 2⟩] rfl
  obtain ⟨corners, lower, upper, atCorners, isLower, isUpper, area⟩ := halves 1 ⟨2, 1, 3, 0⟩ rfl
  obtain rfl : [⟨0, 1⟩, ⟨1, 0⟩, ⟨2, 2⟩, ⟨0, 0⟩] = corners :=
    List.map_injective_iff.mpr (Option.some_injective _) atCorners
  exact ⟨inBounds, ⟨Sample.foldedView, splitView, viewed, splitViewed,
    List.map_congr_left (fun vertex _ => vertices vertex),
    1, splitLabel, answer, answer', splitAnswer, splitAnswer'⟩,
    areaView, lower, upper, areaViewed, isLower, isUpper, area⟩

end DofNumbering
