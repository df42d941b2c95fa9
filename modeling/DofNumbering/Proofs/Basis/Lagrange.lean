import DofNumbering.Basis.Lagrange
import DofNumbering.Proofs.Grid.Triangulation
import DofNumbering.Proofs.Numbering.Laws
import DofNumbering.Proofs.Realization

namespace DofNumbering

/-! Lagrange bases realize their numberings. -/

/-- The number of a shape function of an element, or zero if it has none. -/
def LagrangeBasis.number (basis : LagrangeBasis) (element j : Nat) : Nat :=
  match basis.globalIndex element j with
  | .ok number => number
  | .error _ => 0

def LagrangeBasis.numbering (basis : LagrangeBasis) : Numbering where
  size := basis.finite.size
  places := basis.finite.size
  dofs := basis.dimension
  root := basis.dimension
  index element j := .flat (basis.number element j)
  tree := .node basis.dimension (fun _ => .leaf)

variable {basis : LagrangeBasis} {element offset stride : Nat}

theorem LagrangeBasis.create_eq_ok {grid : GridView} {order : Nat}
    (created : LagrangeBasis.create grid order = .ok basis) :
    basis.grid = grid ∧ dofCount grid basis.finite = .ok basis.dimension := by
  unfold LagrangeBasis.create at created
  split at created
  · contradiction
  · split at created
    · obtain ⟨_, _, counted⟩ := bind_eq_ok_iff.mp created
      obtain ⟨dimension, count, equal⟩ := bind_eq_ok_iff.mp counted
      cases equal
      exact ⟨rfl, lift_eq_ok_iff.mp count⟩
    · contradiction

/-- All elements have three vertices. -/
theorem LagrangeBasis.numVertices_of_create {grid : GridView} {order : Nat}
    (created : LagrangeBasis.create grid order = .ok basis) :
    ∀ element < grid.size 0, grid.numSubEntities element 2 = .ok 3 := by
  intro element inGrid
  unfold LagrangeBasis.create at created
  split at created
  · contradiction
  · split at created
    · obtain ⟨_, checked, -⟩ := bind_eq_ok_iff.mp created
      have passed := Index.of_visit_eq_ok checked element inGrid
      rw [Nat.zero_add] at passed
      obtain ⟨numVertices, counted, three⟩ := bind_eq_ok_iff.mp passed
      by_cases isThree : numVertices = 3
      · exact isThree ▸ lift_eq_ok_iff.mp counted
      · rw [if_neg isThree] at three
        contradiction
    · contradiction

theorem LagrangeElement.size_pos_and_le (finite : LagrangeElement) :
    3 ≤ finite.size ∧ finite.size ≤ 6 := by
  cases finite <;> decide

/-- Every shape function of an element has a number below the dimension. -/
theorem LagrangeBasis.globalIndex_eq_ok (triangle : basis.grid.HasTriangle element)
    (counted : dofCount basis.grid basis.finite = .ok basis.dimension) {j : Nat}
    (below : j < basis.finite.size) :
    basis.globalIndex element j = .ok (basis.number element j) ∧
      basis.number element j < basis.dimension := by
  suffices ∃ number < basis.dimension, basis.globalIndex element j = .ok number by
    obtain ⟨number, inRange, found⟩ := this
    simp only [LagrangeBasis.number, found]
    exact ⟨trivial, inRange⟩
  rw [globalIndex, if_pos below]
  by_cases vertex : j < 3
  · obtain ⟨label, inRange, found⟩ := triangle.vertex j vertex
    rw [if_pos vertex]
    refine ⟨label, ?_, found⟩
    cases finite : basis.finite with
    | linear =>
        rw [finite] at counted
        have equal : basis.grid.size 2 = basis.dimension := Except.ok.inj counted
        omega
    | quadratic =>
        rw [finite] at counted
        obtain ⟨-, equal⟩ := Index.add_eq_ok_iff.mp counted
        omega
  · rw [if_neg vertex]
    cases finite : basis.finite with
    | linear =>
        rw [finite] at below
        exact absurd below vertex
    | quadratic =>
        rw [finite] at counted below
        have inFaces : j - 3 < 3 := by
          change j < 6 at below
          omega
        obtain ⟨label, inRange, found⟩ := triangle.face (j - 3) inFaces
        obtain ⟨room, equal⟩ := Index.add_eq_ok_iff.mp counted
        rw [found, ok_bind]
        exact ⟨_, by omega, Index.add_eq_ok_iff.mpr ⟨by omega, rfl⟩⟩

theorem LagrangeBasis.writeIndex_eq_ok (triangle : basis.grid.HasTriangle element)
    (counted : dofCount basis.grid basis.finite = .ok basis.dimension)
    (roomPlaces : offset + (basis.finite.size - 1) * stride < Index.limit) {j : Nat}
    (below : j < basis.finite.size) {buffer : Buffer} (inBuffer : offset + j * stride < buffer.size) :
    basis.writeIndex ⟨basis.finite, element, offset, stride⟩ j buffer =
      .ok () (buffer.setIfInBounds (offset + j * stride) (.flat (basis.number element j))) := by
  have place := @LeafNode.localIndex_eq_ok ⟨basis.finite, element, offset, stride⟩ j below roomPlaces
  have number := (basis.globalIndex_eq_ok triangle counted below).1
  rw [writeIndex, place]
  refine Buffer.update_of_ok (Array.getElem?_eq_getElem inBuffer) ?_
  rw [number]
  rfl

theorem LagrangeBasis.realizes (triangle : basis.grid.HasTriangle element)
    (counted : dofCount basis.grid basis.finite = .ok basis.dimension) :
    basis.toBasis.Realizes basis.numbering element := by
  have numbered := fun {j : Nat} (below : j < basis.finite.size) =>
    basis.globalIndex_eq_ok triangle counted below
  have sizes := basis.finite.size_pos_and_le
  refine {
    createNode := rfl
    sizeNil := rfl
    rootLe := Nat.le_refl _
    dofsPos := Nat.zero_lt_of_lt (numbered (j := 0) (by omega)).2
    sizeLe := Nat.le_refl _
    placesLe := (by omega : 2 ≤ basis.finite.size)
    headed := fun j below => ⟨_, [], rfl, (numbered below).2⟩
    bind := ?_ }
  intro offset stride positive roomPlaces
  refine ⟨.leaf ⟨basis.finite, element, offset, stride⟩, ?_, rfl, rfl, ?_, ?_⟩
  · intro node shape
    obtain ⟨other, rfl, same⟩ := LocalNode.of_released_leaf shape
    change (LagrangeBasis.bindNode _ _ _ _) = _
    rw [bindNode, LocalNode.expectLeaf, ok_bind, LeafNode.bind, if_pos positive, ok_bind]
    rw [show other.finite = basis.finite from same]
  · refine ⟨_, ?_, @LeafNode.enumerates_localIndices ⟨_, element, _, _⟩ positive⟩
    rw [LocalNode.localIndices, LocalNode.leaves, LocalNode.localIndicesOf,
      LeafNode.localIndices_eq_ok roomPlaces]
    exact congrArg Except.ok (List.append_nil _)
  · exact .forM_range positive (fun j below buffer inBuffer =>
      writeIndex_eq_ok triangle counted roomPlaces below inBuffer)

section Tree

variable {dimension : Nat} {index : MultiIndex}

theorem IndexTree.whole_flat_iff :
    (IndexTree.node dimension (fun _ => .leaf)).Whole index ↔
      (dimension = 0 ∧ index = []) ∨ ∃ number < dimension, index = [number] := by
  cases index with
  | nil => simp [whole_nil, IndexTree.count]
  | cons entry rest =>
      rw [whole_cons]
      cases rest with
      | nil => simp [whole_nil, IndexTree.count, block]
      | cons entry' rest' => simp [whole_cons, IndexTree.count, block]

end Tree

section Laws

variable {basis : LagrangeBasis} {element : Nat}

theorem LagrangeBasis.globalIndex_vertex {i : Nat} (inTriangle : i < 3) :
    basis.globalIndex element i = basis.grid.subEntity element 2 i := by
  have three := basis.finite.size_pos_and_le.1
  rw [globalIndex, if_pos (by omega), if_pos inTriangle]

theorem LagrangeBasis.globalIndex_face {i face : Nat} (quadratic : basis.finite = .quadratic)
    (inTriangle : i < 3) (found : basis.grid.subEntity element 1 i = .ok face)
    (room : basis.grid.size 2 + face < Index.limit) :
    basis.globalIndex element (3 + i) = .ok (basis.grid.size 2 + face) := by
  have six : 3 + i < basis.finite.size := by
    rw [quadratic, LagrangeElement.size]
    omega
  rw [globalIndex, if_pos six, if_neg (by omega), Nat.add_sub_cancel_left, found, ok_bind]
  exact Index.add_eq_ok_iff.mpr ⟨room, rfl⟩

theorem LagrangeBasis.number_of_globalIndex {j number : Nat}
    (found : basis.globalIndex element j = .ok number) : basis.number element j = number := by
  simp only [LagrangeBasis.number, found]

theorem LagrangeBasis.exists_vertex (triangle : basis.grid.HasTriangle element) {i : Nat}
    (inTriangle : i < 3) :
    ∃ label < basis.grid.size 2, basis.grid.subEntity element 2 i = .ok label ∧
      basis.number element i = label := by
  obtain ⟨label, inGrid, found⟩ := triangle.vertex i inTriangle
  exact ⟨label, inGrid, found, number_of_globalIndex ((globalIndex_vertex inTriangle).trans found)⟩

theorem LagrangeBasis.exists_face (triangle : basis.grid.HasTriangle element)
    (quadratic : basis.finite = .quadratic)
    (room : basis.grid.size 2 + basis.grid.size 1 < Index.limit) {i : Nat} (inTriangle : i < 3) :
    ∃ label < basis.grid.size 1, basis.grid.subEntity element 1 i = .ok label ∧
      basis.number element (3 + i) = basis.grid.size 2 + label := by
  obtain ⟨label, inGrid, found⟩ := triangle.face i inTriangle
  exact ⟨label, inGrid, found,
    number_of_globalIndex (globalIndex_face quadratic inTriangle found (by omega))⟩

theorem LagrangeBasis.number_injective (conforming : basis.grid.Conforming)
    (inGrid : element < basis.grid.size 0)
    (counted : dofCount basis.grid basis.finite = .ok basis.dimension) {j k : Nat}
    (below : j < basis.finite.size) (below' : k < basis.finite.size)
    (same : basis.number element j = basis.number element k) : j = k := by
  have triangle := conforming.triangle element inGrid
  have faces : 3 ≤ j ∨ 3 ≤ k → basis.finite = .quadratic ∧ j < 6 ∧ k < 6 ∧
      basis.grid.size 2 + basis.grid.size 1 < Index.limit := by
    intro notVertex
    cases finite : basis.finite with
    | linear =>
        rw [finite, LagrangeElement.size] at below below'
        omega
    | quadratic =>
        rw [finite] at below below' counted
        exact ⟨rfl, below, below', (Index.add_eq_ok_iff.mp counted).1⟩
  rcases Nat.lt_or_ge j 3 with vertex | face <;> rcases Nat.lt_or_ge k 3 with vertex' | face'
  · obtain ⟨label, -, found, number⟩ := exists_vertex triangle vertex
    obtain ⟨label', -, found', number'⟩ := exists_vertex triangle vertex'
    refine conforming.vertexInjective element inGrid j vertex k vertex' ?_
    rw [found, found', ← number, ← number', same]
  · obtain ⟨label, inVertices, -, number⟩ := exists_vertex triangle vertex
    obtain ⟨quadratic, -, six, room⟩ := faces (.inr face')
    obtain ⟨label', -, -, number'⟩ := @exists_face _ _ triangle quadratic room (k - 3) (by omega)
    rw [Nat.add_sub_of_le face'] at number'
    omega
  · obtain ⟨label, inVertices, -, number⟩ := exists_vertex triangle vertex'
    obtain ⟨quadratic, six, -, room⟩ := faces (.inl face)
    obtain ⟨label', -, -, number'⟩ := @exists_face _ _ triangle quadratic room (j - 3) (by omega)
    rw [Nat.add_sub_of_le face] at number'
    omega
  · obtain ⟨quadratic, six, six', room⟩ := faces (.inl face)
    obtain ⟨label, -, found, number⟩ := @exists_face _ _ triangle quadratic room (j - 3) (by omega)
    obtain ⟨label', -, found', number'⟩ :=
      @exists_face _ _ triangle quadratic room (k - 3) (by omega)
    rw [Nat.add_sub_of_le face] at number
    rw [Nat.add_sub_of_le face'] at number'
    have sameFace := conforming.faceInjective element inGrid (j - 3) (by omega) (k - 3) (by omega)
      (by rw [found, found']; exact congrArg Except.ok (by omega))
    omega

theorem LagrangeBasis.exists_number (covered : basis.grid.Covered)
    (counted : dofCount basis.grid basis.finite = .ok basis.dimension) {number : Nat}
    (below : number < basis.dimension) :
    ∃ element < basis.grid.size 0, ∃ j < basis.finite.size, basis.number element j = number := by
  have three := basis.finite.size_pos_and_le.1
  by_cases isVertex : number < basis.grid.size 2
  · obtain ⟨element, inGrid, i, inTriangle, found⟩ := covered.vertexOnto number isVertex
    exact ⟨element, inGrid, i, by omega,
      number_of_globalIndex ((globalIndex_vertex inTriangle).trans found)⟩
  · cases finite : basis.finite with
    | linear =>
        rw [finite] at counted
        exact absurd (Except.ok.inj counted ▸ below) isVertex
    | quadratic =>
        rw [finite] at counted
        obtain ⟨room, dimension⟩ := Index.add_eq_ok_iff.mp counted
        obtain ⟨element, inGrid, i, inTriangle, found⟩ :=
          covered.faceOnto (number - basis.grid.size 2) (by omega)
        have numbered := globalIndex_face finite inTriangle found (by omega)
        rw [Nat.add_sub_of_le (Nat.le_of_not_lt isVertex)] at numbered
        exact ⟨element, inGrid, 3 + i, Nat.add_lt_add_left inTriangle 3,
          number_of_globalIndex numbered⟩

theorem LagrangeBasis.covers (covered : basis.grid.Covered) (nonempty : 0 < basis.grid.size 0)
    (counted : dofCount basis.grid basis.finite = .ok basis.dimension) :
    basis.numbering.Covers (basis.grid.size 0) := by
  have numbered := fun element (inGrid : element < basis.grid.size 0) {j : Nat}
    (below : j < basis.finite.size) =>
      (basis.globalIndex_eq_ok (covered.triangle element inGrid) counted below).2
  have positive : 0 < basis.dimension := by
    have three := basis.finite.size_pos_and_le.1
    have first := numbered 0 nonempty (j := 0) (by omega)
    omega
  have branching : 0 < basis.numbering.tree.count := positive
  constructor
  · rfl
  · refine (IndexTree.total_of_count_pos branching).trans ?_
    simp [IndexTree.before, IndexTree.block, IndexTree.total, numbering, IndexTree.count]
  · rfl
  · exact branching
  · intro element inGrid j below
    exact IndexTree.whole_flat_iff.mpr (.inr ⟨_, numbered element inGrid below, rfl⟩)
  · intro index whole
    rcases IndexTree.whole_flat_iff.mp whole with ⟨empty, -⟩ | ⟨number, below, rfl⟩
    · exact absurd empty (Nat.ne_of_gt positive)
    · obtain ⟨element, inGrid, j, inElement, rfl⟩ := exists_number covered counted below
      exact ⟨element, inGrid, j, inElement, rfl⟩

theorem LagrangeBasis.lawful (conforming : basis.grid.Conforming) (nonempty : 0 < basis.grid.size 0)
    (counted : dofCount basis.grid basis.finite = .ok basis.dimension) :
    basis.numbering.Lawful (basis.grid.size 0) := by
  refine ⟨LagrangeBasis.covers conforming.covered nonempty counted, ?_⟩
  intro element inGrid j below k below' same
  exact number_injective conforming inGrid counted below below' (List.singleton_inj.mp same)

theorem LagrangeBasis.sizedBy : basis.toBasis.SizedBy basis.numbering.tree := by
  intro stem size inTree
  change Except.ok (basis.size stem) = _
  cases stem with
  | nil => exact congrArg Except.ok (Option.some.inj inTree)
  | cons entry rest =>
      by_cases empty : basis.numbering.tree.count = 0
      · rw [IndexTree.size?_of_count_zero empty] at inTree
        exact congrArg Except.ok (Option.some.inj inTree)
      · obtain ⟨-, inLeaf⟩ := IndexTree.of_size?_node (Nat.pos_of_ne_zero empty) inTree
        rw [IndexTree.size?_of_count_zero rfl] at inLeaf
        exact congrArg Except.ok (Option.some.inj inLeaf)

theorem LagrangeBasis.hasDepth (positive : 0 < basis.dimension) :
    basis.numbering.tree.HasDepth basis.toBasis.maxIndexLength := by
  constructor
  · intro index whole
    rcases IndexTree.whole_flat_iff.mp whole with ⟨-, rfl⟩ | ⟨number, -, rfl⟩
    · exact Nat.zero_le _
    · exact Nat.le_refl _
  · exact ⟨[0], IndexTree.whole_flat_iff.mpr (.inr ⟨0, positive, rfl⟩), rfl⟩

end Laws

end DofNumbering
