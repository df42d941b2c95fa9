import DofNumbering.Proofs.Grid.FaceNumbers
import DofNumbering.Proofs.Mesh.Lattice
import Mathlib.Tactic.Ring

namespace DofNumbering

/-! The uniform mesh of a rectangle and the sizes of its view.

The cells of the mesh are the triangles of the lattice, row by row, and its edges are the
sides of the lattice.  So counting the sides counts the faces of the view.
-/

variable {R C : Type} {columns rows column row element : Nat} {side : LatticeSide}
  {half : LatticeHalf} {cell : Triangle} {edge : Edge}

section RowByRow

variable {α β : Type} {items : List α} {item : α} {parts : α → List β} {size i j : Nat}

/-- Parts of equal size, one after the other. -/
theorem getElem?_flatMap_of_length (sized : ∀ item ∈ items, (parts item).length = size)
    (found : items[i]? = some item) (below : j < size) :
    (items.flatMap parts)[size * i + j]? = (parts item)[j]? := by
  induction items generalizing i with
  | nil => simp at found
  | cons first rest ih =>
      have length := sized first List.mem_cons_self
      rw [List.flatMap_cons]
      cases i with
      | zero =>
          obtain rfl : first = item := by simpa using found
          rw [Nat.mul_zero, Nat.zero_add, List.getElem?_append_left (by omega)]
      | succ i =>
          rw [Nat.mul_succ, List.getElem?_append_right (by omega), ← ih
            (fun other inRest => sized other (List.mem_cons_of_mem _ inRest)) (by simpa using found)]
          congr 1
          omega

theorem length_flatMap_of_length (sized : ∀ item ∈ items, (parts item).length = size) :
    (items.flatMap parts).length = items.length * size := by
  rw [List.length_flatMap, List.map_congr_left sized]
  simp

variable {value : Nat → Nat → α}

theorem Mesh.length_rowByRow : (rowByRow columns rows value).length = columns * rows := by
  rw [rowByRow, length_flatMap_of_length fun _ _ => List.length_map .., List.length_range,
    List.length_range, Nat.mul_comm]

theorem Mesh.getElem?_rowByRow (inRow : column < columns) (inColumn : row < rows) :
    (rowByRow columns rows value)[columns * row + column]? = some (value column row) := by
  have found : (List.range rows)[row]? = some row := by simp [inColumn]
  rw [rowByRow, getElem?_flatMap_of_length (fun _ _ => by simp) found inRow]
  simp [inRow]

end RowByRow

namespace Mesh

/-- The triangles of the uniform mesh of a rectangle. -/
def rectangleHalves (columns rows : Nat) : List Triangle :=
  (rowByRow columns rows (rectangleCell columns)).flatMap Quadrilateral.split

theorem length_rectangleHalves : (rectangleHalves columns rows).length = 2 * columns * rows := by
  have two : ∀ cell ∈ rowByRow columns rows (rectangleCell columns),
      (Quadrilateral.split cell).length = 2 := fun _ _ => rfl
  rw [rectangleHalves, length_flatMap_of_length two, length_rowByRow, Nat.mul_comm, Nat.mul_assoc]

theorem getElem?_rectangleHalves (inRectangle : half.InRectangle columns rows) :
    (rectangleHalves columns rows)[half.number columns]? = some (half.triangle columns) := by
  have found : (rowByRow columns rows (rectangleCell columns))[columns * half.row + half.column]? =
      some (rectangleCell columns half.column half.row) :=
    getElem?_rowByRow inRectangle.1 inRectangle.2
  have halves := fun {i : Nat} =>
    @getElem?_flatMap_of_length _ _ _ _ Quadrilateral.split 2 _ i (fun _ _ => rfl) found
  obtain ⟨column, row, lower⟩ := half
  cases lower with
  | true => exact halves (by decide : 0 < 2)
  | false => exact halves (by decide : 1 < 2)

theorem exists_number (below : element < 2 * columns * rows) :
    ∃ half : LatticeHalf, half.InRectangle columns rows ∧ half.number columns = element := by
  have place : element / 2 < columns * rows := by
    rw [Nat.mul_assoc] at below
    omega
  have positive : 0 < columns := Nat.pos_of_mul_pos_right (Nat.zero_lt_of_lt place)
  refine ⟨⟨element / 2 % columns, element / 2 / columns, element % 2 == 0⟩,
    ⟨Nat.mod_lt _ positive, Nat.div_lt_of_lt_mul place⟩, ?_⟩
  rw [LatticeHalf.number, Nat.div_add_mod]
  by_cases even : element % 2 = 0 <;> simp [even] <;> omega

/-- The cells of the mesh are the triangles of the lattice. -/
theorem rectangleHalves_eq_some_iff : (rectangleHalves columns rows)[element]? = some cell ↔
    ∃ half : LatticeHalf, half.InRectangle columns rows ∧ half.number columns = element ∧
      half.triangle columns = cell := by
  constructor
  · intro found
    have below := (List.getElem?_eq_some_iff.mp found).1
    rw [length_rectangleHalves] at below
    obtain ⟨half, inRectangle, rfl⟩ := exists_number below
    exact ⟨half, inRectangle, rfl, Option.some.inj ((getElem?_rectangleHalves inRectangle).symm.trans found)⟩
  · rintro ⟨half, inRectangle, rfl, rfl⟩
    exact getElem?_rectangleHalves inRectangle

theorem mem_rectangleHalves_iff : cell ∈ rectangleHalves columns rows ↔
    ∃ half : LatticeHalf, half.InRectangle columns rows ∧ half.triangle columns = cell := by
  simp only [List.mem_iff_getElem?, rectangleHalves_eq_some_iff]
  constructor
  · rintro ⟨_, half, inRectangle, -, triangle⟩
    exact ⟨half, inRectangle, triangle⟩
  · rintro ⟨half, inRectangle, triangle⟩
    exact ⟨_, half, inRectangle, rfl, triangle⟩

/-- The edges of the mesh are the sides of the lattice. -/
theorem mem_edgesOf_rectangleHalves_iff (someColumn : 0 < columns) (someRow : 0 < rows) :
    edge ∈ EdgeLabels.edgesOf (rectangleHalves columns rows) ↔
      ∃ side : LatticeSide, side.InRectangle columns rows ∧ side.edge columns = edge := by
  simp only [EdgeLabels.edgesOf, List.mem_flatMap, mem_rectangleHalves_iff]
  constructor
  · rintro ⟨_, ⟨half, inRectangle, rfl⟩, isEdge⟩
    rw [LatticeHalf.faces_triangle, List.map_map] at isEdge
    obtain ⟨⟨side, forward⟩, isSide, rfl⟩ := List.mem_map.mp isEdge
    exact ⟨side, (LatticeHalf.inRectangle_of_mem_sides inRectangle isSide).1,
      LatticeSide.edge_directed.symm⟩
  · rintro ⟨side, inRectangle, rfl⟩
    obtain ⟨forward, hasLeft⟩ : ∃ forward, side.HasLeft columns rows forward := by
      rcases LatticeSide.hasLeft_or inRectangle someColumn someRow true with hasLeft | hasLeft
      · exact ⟨_, hasLeft⟩
      · exact ⟨_, hasLeft⟩
    refine ⟨_, ⟨side.left forward, LatticeSide.left_inRectangle inRectangle hasLeft, rfl⟩, ?_⟩
    rw [LatticeHalf.faces_triangle, List.map_map]
    exact List.mem_map.mpr ⟨_, LatticeSide.mem_sides_left hasLeft, LatticeSide.edge_directed⟩

/-- Every vertex of the rectangle is one of a triangle. -/
theorem exists_half_of_vertex (someColumn : 0 < columns) (someRow : 0 < rows)
    (inRow : column ≤ columns) (inColumn : row ≤ rows) :
    ∃ half : LatticeHalf, half.InRectangle columns rows ∧
      rectangleVertex columns column row ∈ Cell.vertices (half.triangle columns) := by
  rcases Nat.lt_or_eq_of_le inRow with inside | rfl <;>
    rcases Nat.lt_or_eq_of_le inColumn with above | rfl
  · exact ⟨⟨column, row, false⟩, ⟨inside, above⟩, by
      simp [LatticeHalf.triangle, rectangleCell, Cell.vertices]⟩
  · obtain ⟨row, rfl⟩ := Nat.exists_eq_succ_of_ne_zero (Nat.ne_of_gt someRow)
    exact ⟨⟨column, row, true⟩, ⟨inside, Nat.lt_succ_self row⟩, by
      simp [LatticeHalf.triangle, rectangleCell, Cell.vertices]⟩
  · obtain ⟨column, rfl⟩ := Nat.exists_eq_succ_of_ne_zero (Nat.ne_of_gt someColumn)
    exact ⟨⟨column, row, true⟩, ⟨Nat.lt_succ_self column, above⟩, by
      simp [LatticeHalf.triangle, rectangleCell, Cell.vertices]⟩
  · obtain ⟨column, rfl⟩ := Nat.exists_eq_succ_of_ne_zero (Nat.ne_of_gt someColumn)
    obtain ⟨row, rfl⟩ := Nat.exists_eq_succ_of_ne_zero (Nat.ne_of_gt someRow)
    exact ⟨⟨column, row, true⟩, ⟨Nat.lt_succ_self column, Nat.lt_succ_self row⟩, by
      simp [LatticeHalf.triangle, rectangleCell, Cell.vertices]⟩

end Mesh

/-- As many numbers as different edges. -/
theorem EdgeLabels.Numbers.size_eq_card {labels : EdgeLabels} {edges : List Edge}
    (numbers : labels.Numbers edges) {different : Finset Edge}
    (same : ∀ edge, edge ∈ edges ↔ edge ∈ different) : labels.size = different.card := by
  have labelled : ∀ edge ∈ different, ∃ number, labels.get? edge = some number :=
    fun edge isEdge => (numbers.known edge).mpr ((same edge).mpr isEdge)
  choose! number found using labelled
  rw [← Finset.card_range labels.size]
  refine (Finset.card_bij (fun edge _ => number edge) ?_ ?_ ?_).symm
  · intro edge isEdge
    exact Finset.mem_range.mpr (numbers.bounded (found edge isEdge))
  · intro edge isEdge edge' isEdge' equal
    exact numbers.injective (found edge isEdge) (equal ▸ found edge' isEdge')
  · intro label inRange
    obtain ⟨edge, labelled⟩ := numbers.onto label (Finset.mem_range.mp inRange)
    have isEdge := (same edge).mp ((numbers.known edge).mp ⟨label, labelled⟩)
    exact ⟨edge, isEdge, Option.some.inj ((found edge isEdge).symm.trans labelled)⟩

namespace MeshView

variable [Cell C] {mesh : Mesh R C} {view : MeshView R C}

/-- If cells refer to all vertices, these keep their numbers. -/
theorem vertexIndex?_of_used (viewed : ofMesh mesh = .ok view)
    (used : ∀ vertex < mesh.vertices.length, ∃ cell ∈ mesh.cells, vertex ∈ Cell.vertices cell) :
    view.size 2 = mesh.vertices.length ∧
      ∀ vertex < mesh.vertices.length, view.vertexIndex? vertex = some vertex := by
  obtain ⟨-, -, -, -, labels, count⟩ := ofMesh_eq_ok viewed
  have marked : ∀ vertex < mesh.vertices.length, (vertexMarks mesh)[vertex]? = some true :=
    fun vertex inMesh => getElem?_vertexMarks.mpr ⟨inMesh, used vertex inMesh⟩
  have length : (vertexMarks mesh).length = mesh.vertices.length := by
    rw [vertexMarks, Array.length_toList, Index.size_marks]
  have allMarked : vertexMarks mesh = List.replicate mesh.vertices.length true := by
    refine List.eq_replicate_iff.mpr ⟨length, fun mark isMark => ?_⟩
    obtain ⟨vertex, found⟩ := List.mem_iff_getElem?.mp isMark
    have inMesh := length ▸ (List.getElem?_eq_some_iff.mp found).1
    exact Option.some.inj (found.symm.trans (marked vertex inMesh))
  refine ⟨?_, fun vertex inMesh => ?_⟩
  · rw [size, count, allMarked, List.count_replicate_self]
  · have numbered := @getElem?_labelMarked _ _ 0 #[] (marked vertex inMesh)
    rw [allMarked, List.take_replicate, List.count_replicate_self,
      Nat.min_eq_left (Nat.le_of_lt inMesh)] at numbered
    rw [vertexIndex?, labels, allMarked]
    simpa using congrArg Option.join numbered

/-- Lagrange bases exist on the views of triangle meshes. -/
theorem create_lagrange {mesh : TriangleMesh R} {view : MeshView R Triangle} {order tag : Nat}
    {finite : LagrangeElement} {dimension : Nat} (viewed : ofMesh mesh = .ok view)
    (supported : LagrangeElement.ofOrder? order = some finite)
    (counted : LagrangeBasis.dofCount (view.toGridView tag) finite = .ok dimension) :
    LagrangeBasis.create (view.toGridView tag) order =
      .ok ⟨view.toGridView tag, finite, dimension⟩ := by
  have passed : Index.visit
      (fun _ element => LagrangeBasis.checkElement (view.toGridView tag) element) 0
      ((view.toGridView tag).size 0) () = .ok () := by
    refine Index.visit_eq_ok (fun element inGrid => ?_)
    rw [Nat.zero_add]
    obtain ⟨cell, found⟩ := exists_triangle viewed inGrid
    have three : (view.toGridView tag).numSubEntities element 2 = .ok 3 := by
      obtain ⟨-, cells, -⟩ := ofMesh_eq_ok viewed
      have foundCell : view.cells[element]? = some cell := by
        rw [cells, List.getElem?_toArray, found]
      show view.numSubEntities element 2 = _
      rw [numSubEntities, Index.lookUp_eq_ok_iff.mpr foundCell]
      rfl
    rw [LagrangeBasis.checkElement, three]
    rfl
  simp only [LagrangeBasis.create, supported]
  rw [if_pos (show (view.toGridView tag).dimension = 2 from rfl), passed, ok_bind, counted]
  rfl

end MeshView

namespace Mesh

/-- The mesh has the vertices and the triangles of a lattice, wherever its points are. -/
structure OnLattice (mesh : TriangleMesh R) (columns rows : Nat) : Prop where
  vertices : mesh.vertices.length = (columns + 1) * (rows + 1)
  cells : mesh.cells = rectangleHalves columns rows
  someColumn : 0 < columns
  someRow : 0 < rows

namespace OnLattice

variable {mesh : TriangleMesh R} {view : MeshView R Triangle}

theorem inBounds (lattice : mesh.OnLattice columns rows) : mesh.InBounds := by
  intro cell inCells vertex inCell
  rw [lattice.cells] at inCells
  obtain ⟨half, inRectangle, rfl⟩ := mem_rectangleHalves_iff.mp inCells
  rw [lattice.vertices]
  exact LatticeHalf.vertices_lt inRectangle vertex inCell

theorem distinct (lattice : mesh.OnLattice columns rows) : mesh.Distinct := by
  intro cell inCells
  rw [lattice.cells] at inCells
  obtain ⟨half, inRectangle, rfl⟩ := mem_rectangleHalves_iff.mp inCells
  exact LatticeHalf.nodup_vertices inRectangle

theorem used (lattice : mesh.OnLattice columns rows) :
    ∀ vertex < mesh.vertices.length, ∃ cell ∈ mesh.cells, vertex ∈ Cell.vertices cell := by
  intro vertex inMesh
  rw [lattice.vertices] at inMesh
  obtain ⟨column, inRow, row, inColumn, rfl⟩ := exists_rectangleVertex inMesh
  obtain ⟨half, inRectangle, isVertex⟩ :=
    exists_half_of_vertex lattice.someColumn lattice.someRow inRow inColumn
  rw [lattice.cells]
  exact ⟨_, mem_rectangleHalves_iff.mpr ⟨half, inRectangle, rfl⟩, isVertex⟩

theorem size_zero (lattice : mesh.OnLattice columns rows) (viewed : MeshView.ofMesh mesh = .ok view) :
    view.size 0 = 2 * columns * rows := by
  rw [MeshView.size_zero viewed, lattice.cells, length_rectangleHalves]

theorem size_one (lattice : mesh.OnLattice columns rows) (viewed : MeshView.ofMesh mesh = .ok view) :
    view.size 1 = columns * (rows + 1) + rows * (columns + 1) + columns * rows := by
  obtain ⟨-, -, -, numFaces, -⟩ := MeshView.ofMesh_eq_ok viewed
  obtain ⟨known, numbers, members⟩ := MeshView.faceLabels_numbers mesh
  have sameEdges : ∀ edge, edge ∈ known ↔
      edge ∈ (LatticeSide.all columns rows).image (LatticeSide.edge columns) := by
    intro edge
    rw [members, lattice.cells, mem_edgesOf_rectangleHalves_iff lattice.someColumn lattice.someRow,
      Finset.mem_image]
    simp only [LatticeSide.mem_all_iff]
  calc view.size 1 = ((LatticeSide.all columns rows).image (LatticeSide.edge columns)).card :=
        numFaces.trans (numbers.size_eq_card sameEdges)
    _ = (LatticeSide.all columns rows).card := by
        refine Finset.card_image_of_injOn (fun side isSide side' isSide' same => ?_)
        rw [Finset.mem_coe, LatticeSide.mem_all_iff] at isSide isSide'
        exact LatticeSide.edge_injective isSide isSide' same
    _ = _ := LatticeSide.card_all

theorem size_two (lattice : mesh.OnLattice columns rows) (viewed : MeshView.ofMesh mesh = .ok view) :
    view.size 2 = (columns + 1) * (rows + 1) :=
  (MeshView.vertexIndex?_of_used viewed lattice.used).1.trans lattice.vertices

/-- A triangulated disk. -/
theorem euler (lattice : mesh.OnLattice columns rows) (viewed : MeshView.ofMesh mesh = .ok view) :
    view.size 2 + view.size 0 = view.size 1 + 1 := by
  rw [lattice.size_zero viewed, lattice.size_one viewed, lattice.size_two viewed]
  ring

/-- The degrees of freedom of order 2 are those of a lattice twice as fine. -/
theorem exists_quadratic (lattice : mesh.OnLattice columns rows) (tag : Nat)
    (viewed : MeshView.ofMesh mesh = .ok view)
    (room : (2 * columns + 1) * (2 * rows + 1) < Index.limit) :
    ∃ basis, LagrangeBasis.create (view.toGridView tag) 2 = .ok basis ∧
      basis.toBasis.dimension = .ok ((2 * columns + 1) * (2 * rows + 1)) := by
  have counted : LagrangeBasis.dofCount (view.toGridView tag) .quadratic =
      .ok ((2 * columns + 1) * (2 * rows + 1)) := by
    have total : (2 * columns + 1) * (2 * rows + 1) = view.size 2 + view.size 1 := by
      rw [lattice.size_one viewed, lattice.size_two viewed]
      ring
    exact Index.add_eq_ok_iff.mpr ⟨total ▸ room, total⟩
  exact ⟨_, MeshView.create_lagrange viewed rfl counted, rfl⟩

end OnLattice

/-- The numbers of the columns and rows are indices, and the vertices and triangles fit into
memory. -/
structure RectangleFits (columns rows : Nat) : Prop where
  columns_lt : columns < Index.limit
  rows_lt : rows < Index.limit
  vertices : (columns + 1) * (rows + 1) * 16 ≤ Index.memory
  triangles : 2 * (columns * rows) * 24 ≤ Index.memory

/-- The midpoints of the sides fit in between the vertices. -/
theorem RectangleFits.finer_lt (fits : RectangleFits columns rows) :
    (2 * columns + 1) * (2 * rows + 1) < Index.limit := by
  have finer : (2 * columns + 1) * (2 * rows + 1) ≤ 4 * ((columns + 1) * (rows + 1)) :=
    calc (2 * columns + 1) * (2 * rows + 1) ≤ 2 * (columns + 1) * (2 * (rows + 1)) :=
          Nat.mul_le_mul (by omega) (by omega)
      _ = 4 * ((columns + 1) * (rows + 1)) := by ring
  have vertices := fits.vertices
  simp only [Index.memory, Index.limit] at vertices ⊢
  omega

variable [Add R] [Mul R] [Neg R] [NatCast R] {unitLength cellSize : R}
  {unitsX unitsY cellsPerUnit : Nat} {topLeft : Point R} {mesh : TriangleMesh R}

theorem ofRectangle_onLattice (someColumn : 0 < columns) (someRow : 0 < rows) :
    (ofRectangle cellSize columns rows topLeft).split.OnLattice columns rows where
  vertices := length_rowByRow
  cells := rfl
  someColumn := someColumn
  someRow := someRow

variable [Div R]

theorem rectangleTriangles_of_zero (empty : cellsPerUnit = 0 ∨ unitsX = 0 ∨ unitsY = 0) :
    rectangleTriangles unitLength unitsX unitsY cellsPerUnit topLeft = .ok ⟨[], []⟩ := by
  rw [rectangleTriangles, rectangle, if_pos empty]
  rfl

theorem rectangleTriangles_eq_ok_iff (someX : 0 < unitsX) (someY : 0 < unitsY)
    (someCell : 0 < cellsPerUnit) :
    rectangleTriangles unitLength unitsX unitsY cellsPerUnit topLeft = .ok mesh ↔
      RectangleFits (unitsX * cellsPerUnit) (unitsY * cellsPerUnit) ∧
        mesh = (ofRectangle (unitLength / (cellsPerUnit : R)) (unitsX * cellsPerUnit)
          (unitsY * cellsPerUnit) topLeft).split := by
  rw [rectangleTriangles, rectangle, if_neg (by omega)]
  constructor
  · intro made
    obtain ⟨quads, made, split⟩ := bind_eq_ok_iff.mp made
    obtain ⟨columns, multiplied, made⟩ := bind_eq_ok_iff.mp made
    obtain ⟨columnsLt, rfl⟩ := Index.mul_eq_ok_iff.mp multiplied
    obtain ⟨rows, multiplied, made⟩ := bind_eq_ok_iff.mp made
    obtain ⟨rowsLt, rfl⟩ := Index.mul_eq_ok_iff.mp multiplied
    obtain ⟨⟨⟩, vertices, made⟩ := bind_eq_ok_iff.mp made
    obtain ⟨⟨⟩, -, made⟩ := bind_eq_ok_iff.mp made
    obtain rfl := Except.ok.inj made
    obtain ⟨⟨⟩, triangles, split⟩ := bind_eq_ok_iff.mp split
    have triangles := Index.reserve_eq_ok_iff.mp triangles
    rw [ofRectangle, length_rowByRow] at triangles
    exact ⟨⟨columnsLt, rowsLt, Index.reserve_eq_ok_iff.mp vertices, triangles⟩,
      (Except.ok.inj split).symm⟩
  · rintro ⟨fits, rfl⟩
    have triangles := fits.triangles
    have cells : Index.reserve (unitsX * cellsPerUnit * (unitsY * cellsPerUnit)) 32 = .ok () :=
      Index.reserve_eq_ok_iff.mpr (by omega)
    rw [Index.mul_eq_ok_iff.mpr ⟨fits.columns_lt, rfl⟩, ok_bind,
      Index.mul_eq_ok_iff.mpr ⟨fits.rows_lt, rfl⟩, ok_bind,
      Index.reserve_eq_ok_iff.mpr fits.vertices, ok_bind, cells, ok_bind, ok_bind, splitAll,
      ofRectangle, length_rowByRow, Index.reserve_eq_ok_iff.mpr triangles]
    rfl

/-- The triangle mesh of a rectangle exists exactly if its numbers are indices and it fits into
memory, and its view has as many elements, edges and vertices as the lattice has triangles,
sides and vertices.  The vertices keep their numbers. -/
theorem rectangle_sizes (unitLength : R) (unitsX unitsY cellsPerUnit : Nat) (topLeft : Point R)
    (tag : Nat) :
    (cellsPerUnit = 0 ∨ unitsX = 0 ∨ unitsY = 0 → ∃ mesh view,
      rectangleTriangles unitLength unitsX unitsY cellsPerUnit topLeft = .ok mesh ∧
        MeshView.ofMesh mesh = .ok view ∧ ∀ codim, view.size codim = 0) ∧
    ∀ nx ny, nx = unitsX * cellsPerUnit → ny = unitsY * cellsPerUnit →
      0 < unitsX → 0 < unitsY → 0 < cellsPerUnit →
      ((∃ mesh, rectangleTriangles unitLength unitsX unitsY cellsPerUnit topLeft = .ok mesh) ↔
        RectangleFits nx ny) ∧
      ∀ mesh, rectangleTriangles unitLength unitsX unitsY cellsPerUnit topLeft = .ok mesh →
        ∃ view basis, MeshView.ofMesh mesh = .ok view ∧
          view.size 0 = 2 * nx * ny ∧
          view.size 2 = (nx + 1) * (ny + 1) ∧
          view.size 1 = nx * (ny + 1) + ny * (nx + 1) + nx * ny ∧
          view.size 2 + view.size 0 = view.size 1 + 1 ∧
          mesh.vertices.length = view.size 2 ∧
          (∀ vertex < mesh.vertices.length, view.vertexIndex? vertex = some vertex) ∧
          LagrangeBasis.create (view.toGridView tag) 2 = .ok basis ∧
          basis.toBasis.dimension = .ok ((2 * nx + 1) * (2 * ny + 1)) := by
  refine ⟨fun empty => ?_, ?_⟩
  · refine ⟨_, _, rectangleTriangles_of_zero empty, rfl, fun codim => ?_⟩
    rcases codim with _ | _ | _ | codim <;> rfl
  · rintro _ _ rfl rfl someX someY someCell
    have made : ∀ mesh, rectangleTriangles unitLength unitsX unitsY cellsPerUnit topLeft = .ok mesh ↔
        RectangleFits (unitsX * cellsPerUnit) (unitsY * cellsPerUnit) ∧
          mesh = (ofRectangle (unitLength / (cellsPerUnit : R)) (unitsX * cellsPerUnit)
            (unitsY * cellsPerUnit) topLeft).split :=
      fun mesh => rectangleTriangles_eq_ok_iff someX someY someCell
    refine ⟨⟨?_, fun fits => ⟨_, (made _).mpr ⟨fits, rfl⟩⟩⟩, fun mesh run => ?_⟩
    · rintro ⟨mesh, run⟩
      exact ((made mesh).mp run).1
    · obtain ⟨fits, rfl⟩ := (made mesh).mp run
      have lattice : (ofRectangle (unitLength / (cellsPerUnit : R)) (unitsX * cellsPerUnit)
          (unitsY * cellsPerUnit) topLeft).split.OnLattice _ _ :=
        ofRectangle_onLattice (Nat.mul_pos someX someCell) (Nat.mul_pos someY someCell)
      obtain ⟨view, viewed⟩ := MeshView.exists_ofMesh_iff.mpr lattice.inBounds
      obtain ⟨basis, created, counted⟩ := lattice.exists_quadratic tag viewed fits.finer_lt
      obtain ⟨sizeTwo, keeps⟩ := MeshView.vertexIndex?_of_used viewed lattice.used
      exact ⟨view, basis, viewed, lattice.size_zero viewed, lattice.size_two viewed,
        lattice.size_one viewed, lattice.euler viewed, sizeTwo.symm, keeps, created, counted⟩

/-- Two squares side by side. -/
theorem rectangle_sizes_two_squares : ∃ mesh view basis,
    rectangleTriangles (3 : Int) 2 1 1 ⟨0, 3⟩ = .ok mesh ∧ MeshView.ofMesh mesh = .ok view ∧
      view.size 0 = 4 ∧ view.size 2 = 6 ∧ view.size 1 = 9 ∧
      LagrangeBasis.create (view.toGridView 0) 2 = .ok basis ∧ basis.toBasis.dimension = .ok 15 := by
  obtain ⟨exists_iff, sizes⟩ :=
    (rectangle_sizes (3 : Int) 2 1 1 ⟨0, 3⟩ 0).2 2 1 rfl rfl (by decide) (by decide) (by decide)
  obtain ⟨mesh, run⟩ := exists_iff.mpr ⟨by decide, by decide, by decide, by decide⟩
  obtain ⟨view, basis, viewed, triangles, vertices, edges, -, -, -, created, counted⟩ := sizes mesh run
  exact ⟨mesh, view, basis, run, viewed, triangles, vertices, edges, created, counted⟩

end Mesh

end DofNumbering
