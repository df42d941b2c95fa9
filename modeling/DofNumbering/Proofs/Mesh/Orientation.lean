import DofNumbering.Proofs.Continuity
import DofNumbering.Proofs.Mesh.Rectangle
import Mathlib.Algebra.BigOperators.Group.Finset.Basic
import Mathlib.Algebra.Order.Field.Rat
import Mathlib.Data.Set.Card
import Mathlib.Tactic.FieldSimp
import Mathlib.Tactic.Positivity

namespace DofNumbering

/-! The triangles of a rectangle fit together and run counter-clockwise.

Every triangle lies to the left of its directed sides, and to the left of a directed side
there is at most one triangle.  So inner sides have one triangle on each side, which pass
them in opposite directions.  All triangles have the same positive area, in exact
arithmetic.
-/

/-- The elements that have the edge. -/
def Mesh.elementsAt {R C : Type} [Cell C] (mesh : Mesh R C) (edge : Edge) : Set Nat :=
  {element | ∃ cell, mesh.cells[element]? = some cell ∧
    edge ∈ (Cell.faces cell).map Segment.edge}

/-- The element passes from one vertex to the next along one of its faces. -/
def Mesh.Passes {R C : Type} [Cell C] (mesh : Mesh R C) (element : Nat) (face : Segment) : Prop :=
  ∃ cell, mesh.cells[element]? = some cell ∧ face ∈ Cell.faces cell

/-- The area of a triangle, negative if its corners run clockwise. -/
def LinearTriangle.signedArea (triangle : LinearTriangle ℚ) : ℚ :=
  ((triangle.second.x - triangle.first.x) * (triangle.third.y - triangle.first.y) -
    (triangle.second.y - triangle.first.y) * (triangle.third.x - triangle.first.x)) / 2

/-- The areas of all elements together. -/
def MeshView.totalArea (view : MeshView ℚ Triangle) : ℚ :=
  ∑ element ∈ Finset.range (view.size 0),
    ((view.element? element).map LinearTriangle.signedArea).getD 0

variable {R : Type} {columns rows element element' i i' : Nat} {side : LatticeSide}
  {half : LatticeHalf} {edge : Edge} {forward : Bool}

namespace Mesh.OnLattice

variable {mesh : TriangleMesh R} {cell cell' : Triangle} {face : Segment}

theorem exists_half (lattice : mesh.OnLattice columns rows)
    (found : mesh.cells[element]? = some cell) : ∃ half : LatticeHalf,
      half.InRectangle columns rows ∧ half.number columns = element ∧
        half.triangle columns = cell := by
  rw [lattice.cells] at found
  exact rectangleHalves_eq_some_iff.mp found

theorem getElem?_cells (lattice : mesh.OnLattice columns rows)
    (inRectangle : half.InRectangle columns rows) :
    mesh.cells[half.number columns]? = some (half.triangle columns) := by
  rw [lattice.cells]
  exact getElem?_rectangleHalves inRectangle

/-- A directed face belongs to one triangle only, and is one face of it. -/
theorem face_unique (lattice : mesh.OnLattice columns rows)
    (found : mesh.cells[element]? = some cell) (foundFace : (Cell.faces cell)[i]? = some face)
    (found' : mesh.cells[element']? = some cell') (foundFace' : (Cell.faces cell')[i']? = some face) :
    element = element' ∧ i = i' := by
  obtain ⟨half, inRectangle, rfl, rfl⟩ := lattice.exists_half found
  obtain ⟨half', inRectangle', rfl, rfl⟩ := lattice.exists_half found'
  rw [LatticeHalf.faces_triangle, List.getElem?_map, Option.map_eq_some_iff] at foundFace foundFace'
  obtain ⟨⟨side, forward⟩, foundSide, rfl⟩ := foundFace
  obtain ⟨⟨side', forward'⟩, foundSide', same⟩ := foundFace'
  have isSide := List.mem_of_getElem? foundSide
  have isSide' := List.mem_of_getElem? foundSide'
  obtain ⟨rfl, rfl⟩ := LatticeSide.directed_injective
    (LatticeHalf.inRectangle_of_mem_sides inRectangle' isSide').1
    (LatticeHalf.inRectangle_of_mem_sides inRectangle isSide).1 same
  obtain rfl := (LatticeHalf.eq_left_of_mem_sides isSide).trans
    (LatticeHalf.eq_left_of_mem_sides isSide').symm
  have inSides := (List.getElem?_eq_some_iff.mp foundSide).1
  exact ⟨rfl, (List.getElem?_inj inSides LatticeHalf.nodup_sides).mp (foundSide.trans foundSide'.symm)⟩

theorem passes_left (lattice : mesh.OnLattice columns rows)
    (inRectangle : side.InRectangle columns rows) (hasLeft : side.HasLeft columns rows forward) :
    mesh.Passes ((side.left forward).number columns) (side.directed columns forward) := by
  refine ⟨_, lattice.getElem?_cells (LatticeSide.left_inRectangle inRectangle hasLeft), ?_⟩
  rw [LatticeHalf.faces_triangle]
  exact List.mem_map.mpr ⟨_, LatticeSide.mem_sides_left hasLeft, rfl⟩

/-- The triangles at a side are those to the left of it in one direction or the other. -/
theorem mem_elementsAt_iff (lattice : mesh.OnLattice columns rows)
    (inRectangle : side.InRectangle columns rows) :
    element ∈ mesh.elementsAt (side.edge columns) ↔
      ∃ forward, side.HasLeft columns rows forward ∧ (side.left forward).number columns = element := by
  constructor
  · rintro ⟨cell, found, isEdge⟩
    obtain ⟨half, halfInRectangle, rfl, rfl⟩ := lattice.exists_half found
    rw [LatticeHalf.faces_triangle, List.map_map] at isEdge
    obtain ⟨⟨side', forward⟩, isSide, sameEdge⟩ := List.mem_map.mp isEdge
    obtain ⟨inRectangle', hasLeft⟩ := LatticeHalf.inRectangle_of_mem_sides halfInRectangle isSide
    have same : side'.edge columns = side.edge columns := LatticeSide.edge_directed.symm.trans sameEdge
    obtain rfl := LatticeSide.edge_injective inRectangle' inRectangle same
    exact ⟨forward, hasLeft, by rw [← LatticeHalf.eq_left_of_mem_sides isSide]⟩
  · rintro ⟨forward, hasLeft, rfl⟩
    obtain ⟨cell, found, isFace⟩ := lattice.passes_left inRectangle hasLeft
    exact ⟨cell, found, List.mem_map.mpr ⟨_, isFace, LatticeSide.edge_directed⟩⟩

theorem exists_side (lattice : mesh.OnLattice columns rows)
    (isEdge : edge ∈ EdgeLabels.edgesOf mesh.cells) :
    ∃ side : LatticeSide, side.InRectangle columns rows ∧ side.edge columns = edge := by
  rw [lattice.cells] at isEdge
  exact (mem_edgesOf_rectangleHalves_iff lattice.someColumn lattice.someRow).mp isEdge

theorem mem_edgesOf_of_mem_elementsAt (isElement : element ∈ mesh.elementsAt edge) :
    edge ∈ EdgeLabels.edgesOf mesh.cells := by
  obtain ⟨cell, found, isEdge⟩ := isElement
  exact List.mem_flatMap.mpr ⟨cell, List.mem_of_getElem? found, isEdge⟩

/-- A side along the boundary has one triangle. -/
theorem elementsAt_boundary (lattice : mesh.OnLattice columns rows)
    (inRectangle : side.InRectangle columns rows)
    (noLeft : ¬ side.HasLeft columns rows forward) :
    mesh.elementsAt (side.edge columns) = {(side.left (!forward)).number columns} := by
  have hasLeft := (LatticeSide.hasLeft_or inRectangle lattice.someColumn lattice.someRow
    forward).resolve_left noLeft
  ext element
  rw [lattice.mem_elementsAt_iff inRectangle, Set.mem_singleton_iff]
  constructor
  · rintro ⟨direction, left, rfl⟩
    cases forward <;> cases direction <;> first | rfl | exact absurd left noLeft
  · rintro rfl
    exact ⟨_, hasLeft, rfl⟩

/-- An inner side has two triangles. -/
theorem elementsAt_inner (lattice : mesh.OnLattice columns rows)
    (inRectangle : side.InRectangle columns rows)
    (inner : ∀ forward, side.HasLeft columns rows forward) :
    mesh.elementsAt (side.edge columns) =
      {(side.left true).number columns, (side.left false).number columns} := by
  ext element
  rw [lattice.mem_elementsAt_iff inRectangle, Set.mem_insert_iff, Set.mem_singleton_iff]
  constructor
  · rintro ⟨forward, -, rfl⟩
    cases forward <;> simp
  · rintro (rfl | rfl)
    · exact ⟨true, inner true, rfl⟩
    · exact ⟨false, inner false, rfl⟩

theorem number_left_ne (inRectangle : side.InRectangle columns rows)
    (inner : ∀ forward, side.HasLeft columns rows forward) :
    (side.left true).number columns ≠ (side.left false).number columns := by
  intro same
  exact LatticeSide.left_true_ne_left_false (LatticeHalf.number_injective
    (LatticeSide.left_inRectangle inRectangle (inner true))
    (LatticeSide.left_inRectangle inRectangle (inner false)) same)

theorem ncard_elementsAt_eq_one_iff (lattice : mesh.OnLattice columns rows) :
    (mesh.elementsAt edge).ncard = 1 ↔
      ∃ side ∈ LatticeSide.boundary columns rows, side.edge columns = edge := by
  simp only [LatticeSide.mem_boundary_iff lattice.someColumn lattice.someRow]
  constructor
  · intro one
    obtain ⟨element, alone⟩ := Set.ncard_eq_one.mp one
    have isElement : element ∈ mesh.elementsAt edge := alone ▸ Set.mem_singleton element
    obtain ⟨side, inRectangle, rfl⟩ := lattice.exists_side (mem_edgesOf_of_mem_elementsAt isElement)
    refine ⟨side, ⟨inRectangle, ?_⟩, rfl⟩
    by_contra noBoundary
    have inner : ∀ forward, side.HasLeft columns rows forward := by simpa using noBoundary
    rw [lattice.elementsAt_inner inRectangle inner,
      Set.ncard_pair (number_left_ne inRectangle inner)] at one
    contradiction
  · rintro ⟨side, ⟨inRectangle, forward, noLeft⟩, rfl⟩
    rw [lattice.elementsAt_boundary inRectangle noLeft, Set.ncard_singleton]

theorem ncard_boundary (lattice : mesh.OnLattice columns rows) :
    {edge | (mesh.elementsAt edge).ncard = 1}.ncard = 2 * (columns + rows) := by
  have asImage : {edge | (mesh.elementsAt edge).ncard = 1} =
      ((LatticeSide.boundary columns rows).image (LatticeSide.edge columns) : Set Edge) := by
    ext edge
    simp [lattice.ncard_elementsAt_eq_one_iff]
  rw [asImage, Set.ncard_coe_finset, Finset.card_image_of_injOn,
    LatticeSide.card_boundary lattice.someColumn lattice.someRow]
  intro side isSide side' isSide' same
  rw [Finset.mem_coe, LatticeSide.mem_boundary_iff lattice.someColumn lattice.someRow] at isSide isSide'
  exact LatticeSide.edge_injective isSide.1 isSide'.1 same

/-- Two triangles that share a side pass it in opposite directions. -/
theorem exists_opposite (lattice : mesh.OnLattice columns rows)
    (isEdge : edge ∈ EdgeLabels.edgesOf mesh.cells) (inner : (mesh.elementsAt edge).ncard ≠ 1) :
    ∃ element element', element ≠ element' ∧ mesh.elementsAt edge = {element, element'} ∧
      mesh.Passes element ⟨edge.low, edge.high⟩ ∧ mesh.Passes element' ⟨edge.high, edge.low⟩ := by
  obtain ⟨side, inRectangle, rfl⟩ := lattice.exists_side isEdge
  have hasLeft : ∀ forward, side.HasLeft columns rows forward := by
    by_contra noLeft
    refine inner (lattice.ncard_elementsAt_eq_one_iff.mpr ⟨side, ?_, rfl⟩)
    exact (LatticeSide.mem_boundary_iff lattice.someColumn lattice.someRow).mpr
      ⟨inRectangle, not_forall.mp noLeft⟩
  have forward := lattice.passes_left inRectangle (hasLeft true)
  have backward := lattice.passes_left inRectangle (hasLeft false)
  rw [LatticeSide.edge_eq inRectangle]
  exact ⟨_, _, number_left_ne inRectangle hasLeft, lattice.elementsAt_inner inRectangle hasLeft ▸
    LatticeSide.edge_eq inRectangle ▸ rfl, forward, backward⟩

end Mesh.OnLattice

namespace MeshView

open Mesh

variable {cellSize : ℚ} {topLeft : Point ℚ} {view : MeshView ℚ Triangle}

theorem getElem?_vertices_rectangle {column row : Nat} (inRow : column ≤ columns)
    (inColumn : row ≤ rows) :
    (ofRectangle cellSize columns rows topLeft).split.vertices[rectangleVertex columns column row]? =
      some (rectanglePoint cellSize topLeft column row) :=
  getElem?_rowByRow (Nat.lt_succ_of_le inRow) (Nat.lt_succ_of_le inColumn)

/-- Both triangles of a cell have half of its area. -/
theorem element?_rectangle (viewed : ofMesh (ofRectangle cellSize columns rows topLeft).split = .ok view)
    (inRectangle : half.InRectangle columns rows) :
    ∃ triangle, view.element? (half.number columns) = some triangle ∧
      triangle.signedArea = cellSize ^ 2 / 2 := by
  obtain ⟨inRow, inColumn⟩ := inRectangle
  have lattice : (ofRectangle cellSize columns rows topLeft).split.OnLattice columns rows :=
    ofRectangle_onLattice (Nat.zero_lt_of_lt inRow) (Nat.zero_lt_of_lt inColumn)
  obtain ⟨triangle, found, corners⟩ :=
    exists_element viewed (lattice.getElem?_cells ⟨inRow, inColumn⟩)
  refine ⟨triangle, found, ?_⟩
  have corner : ∀ a : Fin 3, ∀ column ≤ columns, ∀ row ≤ rows,
      (half.triangle columns).vertex a = rectangleVertex columns column row →
      triangle.vertex a = rectanglePoint cellSize topLeft column row := by
    intro a column inRow row inColumn place
    have found := corners a
    rw [place, getElem?_vertices_rectangle inRow inColumn] at found
    exact (Option.some.inj found).symm
  obtain ⟨column, row, lower⟩ := half
  dsimp only at inRow inColumn
  cases lower with
  | true =>
      have first : triangle.first = _ := corner 0 column (by omega) (row + 1) (by omega) rfl
      have second : triangle.second = _ := corner 1 (column + 1) (by omega) (row + 1) (by omega) rfl
      have third : triangle.third = _ := corner 2 (column + 1) (by omega) row (by omega) rfl
      rw [LinearTriangle.signedArea, first, second, third]
      simp only [rectanglePoint, Point.scale, Point.add_eq, Nat.cast_add, Nat.cast_one]
      ring
  | false =>
      have first : triangle.first = _ := corner 0 column (by omega) (row + 1) (by omega) rfl
      have second : triangle.second = _ := corner 1 (column + 1) (by omega) row (by omega) rfl
      have third : triangle.third = _ := corner 2 column (by omega) row (by omega) rfl
      rw [LinearTriangle.signedArea, first, second, third]
      simp only [rectanglePoint, Point.scale, Point.add_eq, Nat.cast_add, Nat.cast_one]
      ring

theorem exists_element_rectangle (someColumn : 0 < columns) (someRow : 0 < rows)
    (viewed : ofMesh (ofRectangle cellSize columns rows topLeft).split = .ok view)
    (inView : element < view.size 0) :
    ∃ triangle, view.element? element = some triangle ∧ triangle.signedArea = cellSize ^ 2 / 2 := by
  rw [(ofRectangle_onLattice someColumn someRow).size_zero viewed] at inView
  obtain ⟨half, inRectangle, rfl⟩ := exists_number inView
  exact element?_rectangle viewed inRectangle

theorem totalArea_rectangle (someColumn : 0 < columns) (someRow : 0 < rows)
    (viewed : ofMesh (ofRectangle cellSize columns rows topLeft).split = .ok view) :
    view.totalArea = columns * cellSize * (rows * cellSize) := by
  have each : ∀ element ∈ Finset.range (view.size 0),
      ((view.element? element).map LinearTriangle.signedArea).getD 0 = cellSize ^ 2 / 2 := by
    intro element inView
    obtain ⟨triangle, found, area⟩ :=
      exists_element_rectangle someColumn someRow viewed (Finset.mem_range.mp inView)
    rw [found, Option.map_some, Option.getD_some, area]
  rw [totalArea, Finset.sum_congr rfl each, Finset.sum_const, Finset.card_range,
    (ofRectangle_onLattice someColumn someRow).size_zero viewed, nsmul_eq_mul]
  push_cast
  ring

end MeshView

namespace Mesh

variable [Add R] [Mul R] [Div R] [Neg R] [NatCast R]

/-- The triangle mesh of a rectangle that fits is conforming and consistently oriented: each
directed face belongs to one triangle, each edge to two that pass it in opposite directions,
except for the edges along the boundary, which belong to one.  In exact arithmetic all
triangles have the same positive area, and together that of the rectangle. -/
theorem rectangle_conforming (unitLength : R) (unitsX unitsY cellsPerUnit : Nat) (topLeft : Point R)
    (nx ny : Nat) (width : nx = unitsX * cellsPerUnit) (height : ny = unitsY * cellsPerUnit)
    (someX : 0 < unitsX) (someY : 0 < unitsY) (someCell : 0 < cellsPerUnit)
    (fits : RectangleFits nx ny) :
    (∃ mesh, rectangleTriangles unitLength unitsX unitsY cellsPerUnit topLeft = .ok mesh ∧
      mesh.InBounds ∧ mesh.Distinct ∧
      (∀ (element i : Nat) (cell : Triangle) (face : Segment) (element' i' : Nat) (cell' : Triangle),
        mesh.cells[element]? = some cell → (Cell.faces cell)[i]? = some face →
        mesh.cells[element']? = some cell' → (Cell.faces cell')[i']? = some face →
        element = element' ∧ i = i') ∧
      {edge | (mesh.elementsAt edge).ncard = 1}.ncard = 2 * (nx + ny) ∧
      ∀ edge ∈ EdgeLabels.edgesOf mesh.cells, (mesh.elementsAt edge).ncard ≠ 1 →
        ∃ element element', element ≠ element' ∧ mesh.elementsAt edge = {element, element'} ∧
          mesh.Passes element ⟨edge.low, edge.high⟩ ∧ mesh.Passes element' ⟨edge.high, edge.low⟩) ∧
    ∀ (unitLength : ℚ) (topLeft : Point ℚ), 0 < unitLength → ∃ mesh view,
      rectangleTriangles unitLength unitsX unitsY cellsPerUnit topLeft = .ok mesh ∧
        MeshView.ofMesh mesh = .ok view ∧
        (∀ element < view.size 0, ∃ triangle, view.element? element = some triangle ∧
          triangle.signedArea = (unitLength / cellsPerUnit) ^ 2 / 2 ∧ 0 < triangle.signedArea) ∧
        view.totalArea = unitsX * unitLength * (unitsY * unitLength) := by
  subst width height
  have someColumn := Nat.mul_pos someX someCell
  have someRow := Nat.mul_pos someY someCell
  refine ⟨?_, fun unitLength topLeft positive => ?_⟩
  · have lattice : (ofRectangle (unitLength / (cellsPerUnit : R)) (unitsX * cellsPerUnit)
        (unitsY * cellsPerUnit) topLeft).split.OnLattice _ _ :=
      ofRectangle_onLattice someColumn someRow
    exact ⟨_, (rectangleTriangles_eq_ok_iff someX someY someCell).mpr ⟨fits, rfl⟩, lattice.inBounds,
      lattice.distinct, fun _ _ _ _ _ _ _ => lattice.face_unique, lattice.ncard_boundary,
      fun _ => lattice.exists_opposite⟩
  · have lattice : (ofRectangle (unitLength / (cellsPerUnit : ℚ)) (unitsX * cellsPerUnit)
        (unitsY * cellsPerUnit) topLeft).split.OnLattice _ _ :=
      ofRectangle_onLattice someColumn someRow
    obtain ⟨view, viewed⟩ := MeshView.exists_ofMesh_iff.mpr lattice.inBounds
    have cells : (cellsPerUnit : ℚ) ≠ 0 := Nat.cast_ne_zero.mpr (Nat.ne_of_gt someCell)
    have cellSize : 0 < unitLength / (cellsPerUnit : ℚ) :=
      div_pos positive (Nat.cast_pos.mpr someCell)
    refine ⟨_, view, (rectangleTriangles_eq_ok_iff someX someY someCell).mpr ⟨fits, rfl⟩, viewed,
      fun element inView => ?_, ?_⟩
    · obtain ⟨triangle, found, area⟩ :=
        MeshView.exists_element_rectangle someColumn someRow viewed inView
      exact ⟨triangle, found, area, by rw [area]; positivity⟩
    · rw [MeshView.totalArea_rectangle someColumn someRow viewed]
      push_cast
      field_simp

/-- Two squares side by side. -/
theorem rectangle_conforming_two_squares :
    (∃ mesh, rectangleTriangles (3 : Int) 2 1 1 ⟨0, 3⟩ = .ok mesh ∧ mesh.Distinct ∧
      {edge | (mesh.elementsAt edge).ncard = 1}.ncard = 6) ∧
    ∃ mesh view, rectangleTriangles (3 : ℚ) 2 1 1 ⟨0, 3⟩ = .ok mesh ∧
      MeshView.ofMesh mesh = .ok view ∧ view.totalArea = 18 := by
  obtain ⟨⟨mesh, run, -, distinct, -, boundary, -⟩, areas⟩ := rectangle_conforming (3 : Int) 2 1 1
    ⟨0, 3⟩ 2 1 rfl rfl (by decide) (by decide) (by decide) ⟨by decide, by decide, by decide, by decide⟩
  obtain ⟨exact, view, runExact, viewed, -, total⟩ := areas 3 ⟨0, 3⟩ (by norm_num)
  refine ⟨⟨mesh, run, distinct, boundary⟩, exact, view, runExact, viewed, ?_⟩
  rw [total]
  norm_num

end Mesh

end DofNumbering
