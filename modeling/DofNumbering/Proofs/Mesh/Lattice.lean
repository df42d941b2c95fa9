import DofNumbering.Mesh.Rectangle
import Mathlib.Data.Finset.Card
import Mathlib.Data.Finset.Prod
import Mathlib.Data.Nat.SuccPred

namespace DofNumbering

/-! The sides and the triangles of the uniform mesh of a rectangle.

A side joins a vertex with the next one in its row or in its column, or it is the
diagonal of a cell.  Every triangle has three directed sides around it, and every
directed side has at most one triangle to the left of it: none exactly at the
boundary of the rectangle.
-/

/-- The side to the right of a vertex, the one below it, and the diagonal of the cell
whose upper left corner it is. -/
inductive LatticeSide where
  | across (column row : Nat)
  | down (column row : Nat)
  | diagonal (column row : Nat)
deriving DecidableEq

/-- One of the two triangles of a cell. -/
structure LatticeHalf where
  column : Nat
  row : Nat
  lower : Bool
deriving DecidableEq

namespace LatticeHalf

def InRectangle (columns rows : Nat) (half : LatticeHalf) : Prop :=
  half.column < columns ∧ half.row < rows

def triangle (columns : Nat) (half : LatticeHalf) : Triangle :=
  let cell := Mesh.rectangleCell columns half.column half.row
  if half.lower then ⟨cell.first, cell.second, cell.third⟩
  else ⟨cell.first, cell.third, cell.fourth⟩

/-- The number of the triangle in the mesh, row by row. -/
def number (columns : Nat) (half : LatticeHalf) : Nat :=
  2 * (columns * half.row + half.column) + if half.lower then 0 else 1

/-- The sides around the triangle, with the information whether it is passed from its
start to its end. -/
def sides : LatticeHalf → List (LatticeSide × Bool)
  | ⟨column, row, true⟩ =>
      [(.across column (row + 1), true), (.down (column + 1) row, false),
        (.diagonal column row, true)]
  | ⟨column, row, false⟩ =>
      [(.diagonal column row, false), (.across column row, false), (.down column row, true)]

end LatticeHalf

namespace LatticeSide

def InRectangle (columns rows : Nat) : LatticeSide → Prop
  | .across column row => column < columns ∧ row ≤ rows
  | .down column row => column ≤ columns ∧ row < rows
  | .diagonal column row => column < columns ∧ row < rows

/-- The side from its start, which is the end with the smaller number. -/
def segment (columns : Nat) : LatticeSide → Segment
  | .across column row =>
      ⟨Mesh.rectangleVertex columns column row, Mesh.rectangleVertex columns (column + 1) row⟩
  | .down column row =>
      ⟨Mesh.rectangleVertex columns column row, Mesh.rectangleVertex columns column (row + 1)⟩
  | .diagonal column row =>
      ⟨Mesh.rectangleVertex columns (column + 1) row, Mesh.rectangleVertex columns column (row + 1)⟩

def edge (columns : Nat) (side : LatticeSide) : Edge := (side.segment columns).edge

/-- The side as it is passed from its start to its end, or the other way round. -/
def directed (columns : Nat) (side : LatticeSide) (forward : Bool) : Segment :=
  if forward then side.segment columns
  else ⟨(side.segment columns).second, (side.segment columns).first⟩

/-- The triangle to the left of a directed side, if there is one. -/
def left : LatticeSide → (forward : Bool) → LatticeHalf
  | .across column row, true => ⟨column, row - 1, true⟩
  | .across column row, false => ⟨column, row, false⟩
  | .down column row, true => ⟨column, row, false⟩
  | .down column row, false => ⟨column - 1, row, true⟩
  | .diagonal column row, forward => ⟨column, row, forward⟩

/-- The directed side does not run along the boundary. -/
def HasLeft (columns rows : Nat) : LatticeSide → (forward : Bool) → Prop
  | .across _ row, true => 0 < row
  | .across _ row, false => row < rows
  | .down column _, true => column < columns
  | .down column _, false => 0 < column
  | .diagonal _ _, _ => True

end LatticeSide

variable {columns rows column row column' row' : Nat} {side side' : LatticeSide}
  {half half' : LatticeHalf} {forward forward' : Bool}

/-- A place in a table, row by row, tells its row and its column. -/
theorem eq_of_rowByRow_eq (inRow : column < columns) (inRow' : column' < columns)
    (same : columns * row + column = columns * row' + column') : column = column' ∧ row = row' := by
  have positive : 0 < columns := by omega
  have remainder := congrArg (· % columns) same
  have quotient := congrArg (· / columns) same
  simp only [Nat.mul_add_mod, Nat.mul_add_div positive, Nat.mod_eq_of_lt inRow,
    Nat.mod_eq_of_lt inRow', Nat.div_eq_of_lt inRow, Nat.div_eq_of_lt inRow',
    Nat.add_zero] at remainder quotient
  exact ⟨remainder, quotient⟩

section Vertices

open Mesh

theorem rectangleVertex_injective (inRow : column ≤ columns) (inRow' : column' ≤ columns)
    (same : rectangleVertex columns column row = rectangleVertex columns column' row') :
    column = column' ∧ row = row' :=
  eq_of_rowByRow_eq (Nat.lt_succ_of_le inRow) (Nat.lt_succ_of_le inRow') same

theorem rectangleVertex_lt (inRow : column ≤ columns) (inColumn : row ≤ rows) :
    rectangleVertex columns column row < (columns + 1) * (rows + 1) := by
  have below : (columns + 1) * row ≤ (columns + 1) * rows := Nat.mul_le_mul_left _ inColumn
  rw [rectangleVertex, Nat.mul_succ]
  omega

theorem exists_rectangleVertex {vertex : Nat} (inRectangle : vertex < (columns + 1) * (rows + 1)) :
    ∃ column ≤ columns, ∃ row ≤ rows, rectangleVertex columns column row = vertex := by
  refine ⟨vertex % (columns + 1), Nat.le_of_lt_succ (Nat.mod_lt _ (Nat.succ_pos columns)),
    vertex / (columns + 1), Nat.le_of_lt_succ (Nat.div_lt_of_lt_mul inRectangle), ?_⟩
  exact Nat.div_add_mod vertex (columns + 1)

end Vertices

theorem Segment.eq_of_ends {face face' : Segment} (first : face.first = face'.first)
    (second : face.second = face'.second) : face = face' := by
  cases face
  cases face'
  exact Segment.mk.injEq .. ▸ ⟨first, second⟩

namespace LatticeSide

theorem first_lt_second (inRectangle : side.InRectangle columns rows) :
    (side.segment columns).first < (side.segment columns).second := by
  cases side <;> simp only [InRectangle] at inRectangle <;>
    simp only [segment, Mesh.rectangleVertex, Nat.mul_succ] <;> omega

/-- The columns and the rows of the start and of the end. -/
def ends : LatticeSide → (Nat × Nat) × (Nat × Nat)
  | .across column row => ((column, row), (column + 1, row))
  | .down column row => ((column, row), (column, row + 1))
  | .diagonal column row => ((column + 1, row), (column, row + 1))

theorem segment_eq : side.segment columns =
    ⟨Mesh.rectangleVertex columns side.ends.1.1 side.ends.1.2,
      Mesh.rectangleVertex columns side.ends.2.1 side.ends.2.2⟩ := by
  cases side <;> rfl

theorem ends_injective (same : side.ends = side'.ends) : side = side' := by
  cases side <;> cases side' <;>
    simp only [ends, Prod.mk.injEq] at same <;> simp <;> omega

theorem ends_le (inRectangle : side.InRectangle columns rows) :
    side.ends.1.1 ≤ columns ∧ side.ends.2.1 ≤ columns := by
  cases side <;> simp only [InRectangle] at inRectangle <;> simp only [ends] <;> omega

/-- Sides in the rectangle with the same vertices are the same. -/
theorem segment_injective (inRectangle : side.InRectangle columns rows)
    (inRectangle' : side'.InRectangle columns rows)
    (same : side.segment columns = side'.segment columns) : side = side' := by
  rw [segment_eq, segment_eq] at same
  obtain ⟨sameFirst, sameSecond⟩ := Segment.mk.inj same
  obtain ⟨firstLe, secondLe⟩ := ends_le inRectangle
  obtain ⟨firstLe', secondLe'⟩ := ends_le inRectangle'
  obtain ⟨firstColumn, firstRow⟩ := rectangleVertex_injective firstLe firstLe' sameFirst
  obtain ⟨secondColumn, secondRow⟩ := rectangleVertex_injective secondLe secondLe' sameSecond
  exact ends_injective (Prod.ext (Prod.ext firstColumn firstRow) (Prod.ext secondColumn secondRow))

/-- A directed side tells the side and the direction, since its start has the smaller
number. -/
theorem directed_injective (inRectangle : side.InRectangle columns rows)
    (inRectangle' : side'.InRectangle columns rows)
    (same : side.directed columns forward = side'.directed columns forward') :
    side = side' ∧ forward = forward' := by
  have ascends := first_lt_second inRectangle
  have ascends' := first_lt_second inRectangle'
  have sameFirst := congrArg Segment.first same
  have sameSecond := congrArg Segment.second same
  cases forward <;> cases forward' <;>
    simp only [directed, Bool.false_eq_true, if_true, if_false] at same sameFirst sameSecond
  · exact ⟨segment_injective inRectangle inRectangle' (Segment.eq_of_ends sameSecond sameFirst), rfl⟩
  · omega
  · omega
  · exact ⟨segment_injective inRectangle inRectangle' same, rfl⟩

theorem edge_directed : (side.directed columns forward).edge = side.edge columns := by
  cases forward with
  | true => rfl
  | false => simp only [directed, edge, Segment.edge, Bool.false_eq_true, if_false, Nat.min_comm,
      Nat.max_comm]

theorem edge_eq (inRectangle : side.InRectangle columns rows) :
    side.edge columns = ⟨(side.segment columns).first, (side.segment columns).second⟩ := by
  have ascends := first_lt_second inRectangle
  rw [edge, Segment.edge, Nat.min_eq_left (Nat.le_of_lt ascends),
    Nat.max_eq_right (Nat.le_of_lt ascends)]

theorem edge_injective (inRectangle : side.InRectangle columns rows)
    (inRectangle' : side'.InRectangle columns rows)
    (same : side.edge columns = side'.edge columns) : side = side' := by
  rw [edge_eq inRectangle, edge_eq inRectangle'] at same
  obtain ⟨sameFirst, sameSecond⟩ := Edge.mk.inj same
  exact segment_injective inRectangle inRectangle' (Segment.eq_of_ends sameFirst sameSecond)

theorem left_inRectangle (inRectangle : side.InRectangle columns rows)
    (hasLeft : side.HasLeft columns rows forward) :
    (side.left forward).InRectangle columns rows := by
  cases side <;> cases forward <;>
    simp only [InRectangle, HasLeft, left, LatticeHalf.InRectangle] at inRectangle hasLeft ⊢ <;> omega

theorem mem_sides_left (hasLeft : side.HasLeft columns rows forward) :
    (side, forward) ∈ (side.left forward).sides := by
  cases side <;> cases forward <;> simp only [HasLeft] at hasLeft <;>
    simp [left, LatticeHalf.sides] <;> omega

theorem left_true_ne_left_false : side.left true ≠ side.left false := by
  cases side <;> simp [left]

/-- Only the sides on the boundary have a triangle on one side only. -/
theorem hasLeft_or (inRectangle : side.InRectangle columns rows) (someColumn : 0 < columns)
    (someRow : 0 < rows) (forward : Bool) :
    side.HasLeft columns rows forward ∨ side.HasLeft columns rows (!forward) := by
  cases side <;> cases forward <;>
    simp only [InRectangle, HasLeft, Bool.not_true, Bool.not_false, or_true] at inRectangle ⊢ <;> omega

end LatticeSide

namespace LatticeHalf

theorem faces_triangle : Cell.faces (half.triangle columns) =
    half.sides.map (fun side => side.1.directed columns side.2) := by
  obtain ⟨column, row, lower⟩ := half
  cases lower <;> rfl

theorem eq_left_of_mem_sides (isSide : (side, forward) ∈ half.sides) : half = side.left forward := by
  obtain ⟨column, row, lower⟩ := half
  cases lower <;>
    simp only [sides, List.mem_cons, Prod.mk.injEq, List.not_mem_nil, or_false] at isSide <;>
    rcases isSide with ⟨rfl, rfl⟩ | ⟨rfl, rfl⟩ | ⟨rfl, rfl⟩ <;> rfl

theorem inRectangle_of_mem_sides (inRectangle : half.InRectangle columns rows)
    (isSide : (side, forward) ∈ half.sides) :
    side.InRectangle columns rows ∧ side.HasLeft columns rows forward := by
  obtain ⟨column, row, lower⟩ := half
  obtain ⟨inRow, inColumn⟩ : column < columns ∧ row < rows := inRectangle
  cases lower <;>
    simp only [sides, List.mem_cons, Prod.mk.injEq, List.not_mem_nil, or_false] at isSide <;>
    rcases isSide with ⟨rfl, rfl⟩ | ⟨rfl, rfl⟩ | ⟨rfl, rfl⟩ <;>
    simp only [LatticeSide.InRectangle, LatticeSide.HasLeft, and_true] <;> omega

theorem vertices_lt (inRectangle : half.InRectangle columns rows) :
    ∀ vertex ∈ Cell.vertices (half.triangle columns), vertex < (columns + 1) * (rows + 1) := by
  obtain ⟨column, row, lower⟩ := half
  obtain ⟨inRow, inColumn⟩ : column < columns ∧ row < rows := inRectangle
  have corner := fun {i j : Nat} => @rectangleVertex_lt columns rows i j
  cases lower <;>
    simp only [triangle, Mesh.rectangleCell, Cell.vertices, List.forall_mem_cons] <;>
    exact ⟨corner (by omega) (by omega), corner (by omega) (by omega), corner (by omega) (by omega),
      nofun⟩

theorem nodup_vertices (inRectangle : half.InRectangle columns rows) :
    (Cell.vertices (half.triangle columns)).Nodup := by
  obtain ⟨column, row, lower⟩ := half
  obtain ⟨inRow, inColumn⟩ : column < columns ∧ row < rows := inRectangle
  cases lower <;>
    simp [triangle, Mesh.rectangleCell, Cell.vertices, Mesh.rectangleVertex, Nat.mul_succ] <;> omega

theorem nodup_sides : half.sides.Nodup := by
  obtain ⟨column, row, lower⟩ := half
  cases lower <;> simp [sides]

theorem number_injective (inRectangle : half.InRectangle columns rows)
    (inRectangle' : half'.InRectangle columns rows)
    (same : half.number columns = half'.number columns) : half = half' := by
  obtain ⟨column, row, lower⟩ := half
  obtain ⟨column', row', lower'⟩ := half'
  obtain ⟨samePlace, rfl⟩ :
      columns * row + column = columns * row' + column' ∧ lower = lower' := by
    cases lower <;> cases lower' <;>
      simp only [number, Bool.false_eq_true, if_true, if_false] at same <;>
      first | exact ⟨by omega, rfl⟩ | omega
  obtain ⟨rfl, rfl⟩ := eq_of_rowByRow_eq inRectangle.1 inRectangle'.1 samePlace
  rfl

end LatticeHalf

namespace LatticeSide

/-- The sides of each kind at the given places. -/
def ofPlaces (acrossPlaces downPlaces diagonalPlaces : Finset (Nat × Nat)) : Finset LatticeSide :=
  acrossPlaces.image (fun place => across place.1 place.2) ∪
    downPlaces.image (fun place => down place.1 place.2) ∪
    diagonalPlaces.image (fun place => diagonal place.1 place.2)

/-- All sides in a rectangle. -/
def all (columns rows : Nat) : Finset LatticeSide :=
  ofPlaces (Finset.range columns ×ˢ Finset.range (rows + 1))
    (Finset.range (columns + 1) ×ˢ Finset.range rows) (Finset.range columns ×ˢ Finset.range rows)

/-- The sides along the boundary of a rectangle. -/
def boundary (columns rows : Nat) : Finset LatticeSide :=
  ofPlaces (Finset.range columns ×ˢ {0, rows}) ({0, columns} ×ˢ Finset.range rows) ∅

theorem card_ofPlaces (acrossPlaces downPlaces diagonalPlaces : Finset (Nat × Nat)) :
    (ofPlaces acrossPlaces downPlaces diagonalPlaces).card =
      acrossPlaces.card + downPlaces.card + diagonalPlaces.card := by
  rw [ofPlaces, Finset.card_union_of_disjoint, Finset.card_union_of_disjoint,
    Finset.card_image_of_injective, Finset.card_image_of_injective, Finset.card_image_of_injective]
  · intro place place' same
    simpa [Prod.ext_iff] using same
  · intro place place' same
    simpa [Prod.ext_iff] using same
  · intro place place' same
    simpa [Prod.ext_iff] using same
  · refine Finset.disjoint_left.mpr (fun side isAcross isDown => ?_)
    obtain ⟨_, -, rfl⟩ := Finset.mem_image.mp isAcross
    simp at isDown
  · refine Finset.disjoint_left.mpr (fun side isOther isDiagonal => ?_)
    obtain ⟨_, -, rfl⟩ := Finset.mem_image.mp isDiagonal
    simp at isOther

theorem mem_all_iff : side ∈ all columns rows ↔ side.InRectangle columns rows := by
  cases side <;> simp [all, ofPlaces, InRectangle]

theorem card_all : (all columns rows).card =
    columns * (rows + 1) + rows * (columns + 1) + columns * rows := by
  rw [all, card_ofPlaces]
  simp [Nat.mul_comm rows]

theorem mem_boundary_iff (someColumn : 0 < columns) (someRow : 0 < rows) :
    side ∈ boundary columns rows ↔
      side.InRectangle columns rows ∧ ∃ forward, ¬ side.HasLeft columns rows forward := by
  cases side <;> simp [boundary, ofPlaces, InRectangle, HasLeft, Bool.exists_bool] <;> omega

theorem card_boundary (someColumn : 0 < columns) (someRow : 0 < rows) :
    (boundary columns rows).card = 2 * (columns + rows) := by
  rw [boundary, card_ofPlaces, Finset.card_product, Finset.card_product,
    Finset.card_pair (Nat.ne_of_lt someRow), Finset.card_pair (Nat.ne_of_lt someColumn)]
  simp only [Finset.card_range, Finset.card_empty]
  omega

end LatticeSide

end DofNumbering
