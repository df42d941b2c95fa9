import DofNumbering.Proofs.Built
import DofNumbering.Proofs.Local.IndexSet

namespace DofNumbering

/-! The indices that a basis produces on the elements of its grid.

On a grid with an element they are the whole indices of the tree of the basis.  On a
conforming grid no element has an index twice.
-/

/-- Some element has the index, in a set that is bound anew. -/
def Basis.Produces (basis : Basis) (index : MultiIndex) : Prop :=
  ∃ element < basis.grid.size 0, ∃ view set j,
    bindFresh basis element = .ok (view, set) ∧ set.index j = .ok index

/-- The basis of a given dimension has the indices that its numbering says; an element may
have an index twice. -/
structure Basis.HasIndices (basis : Basis) (numbering : Numbering) (dimension : Nat) : Prop where
  covers : numbering.Covers (basis.grid.size 0)
  dofs : numbering.dofs = dimension
  places : numbering.places < Index.limit
  describes : basis.Describes numbering.tree
  realizes : ∀ element < basis.grid.size 0, basis.Realizes numbering element

/-- The basis of a given dimension does what its numbering says. -/
structure Basis.HasNumbering (basis : Basis) (numbering : Numbering) (dimension : Nat) : Prop
    extends basis.HasIndices numbering dimension where
  lawful : numbering.Lawful (basis.grid.size 0)

/-- On an element, both bases have the same number of local degrees of freedom, and the
relation holds between their indices at every local index. -/
def Basis.AgreeOn (basis other : Basis) (element : Nat)
    (agree : (index index' : MultiIndex) → Prop) : Prop :=
  ∃ view set view' set' size,
    bindFresh basis element = .ok (view, set) ∧ set.boundSize = .ok size ∧
    bindFresh other element = .ok (view', set') ∧ set'.boundSize = .ok size ∧
    ∀ j < size, ∃ index index', set.index j = .ok index ∧ set'.index j = .ok index' ∧
      agree index index'

variable {grid : GridView} {basis other : Basis} {numbering numbering' : Numbering}
  {dimension dimension' least element : Nat} {index : MultiIndex}

theorem Basis.produces_iff_occurs
    (realizes : ∀ element < basis.grid.size 0, basis.Realizes numbering element)
    (room : numbering.places < Index.limit) :
    basis.Produces index ↔ numbering.Occurs (basis.grid.size 0) index := by
  constructor
  · rintro ⟨element, inGrid, view, set, j, bound, found⟩
    obtain ⟨view', set', bound', shown⟩ := (realizes element inGrid).exists_bindFresh inGrid room
    obtain ⟨rfl, rfl⟩ := Prod.mk.inj (Except.ok.inj (bound.symm.trans bound'))
    obtain ⟨below, equal⟩ := shown.index_eq_ok_iff.mp found
    exact ⟨element, inGrid, j, below, equal⟩
  · rintro ⟨element, inGrid, j, below, rfl⟩
    obtain ⟨view, set, bound, shown⟩ := (realizes element inGrid).exists_bindFresh inGrid room
    exact ⟨element, inGrid, view, set, j, bound, shown.index_eq_ok below⟩

theorem Numbered.produces_iff_occurs (numbered : Numbered grid least basis numbering)
    (covered : grid.Covered) (roomDofs : numbering.dofs < Index.limit)
    (roomPlaces : numbering.places < Index.limit) :
    basis.Produces index ↔ numbering.Occurs (grid.size 0) index := by
  have sameGrid := numbered.grid_eq
  rw [← sameGrid]
  exact Basis.produces_iff_occurs (fun element inGrid => numbered.realizes
    (covered.triangle element (sameGrid ▸ inGrid)) roomDofs roomPlaces) roomPlaces

/-- Every produced index has a first entry, which is below the size after no entries. -/
theorem Numbered.exists_first_of_produces (numbered : Numbered grid least basis numbering)
    (covered : grid.Covered) (roomDofs : numbering.dofs < Index.limit)
    (roomPlaces : numbering.places < Index.limit) (produced : basis.Produces index) :
    ∃ first rest, index = first :: rest ∧ first < numbering.root := by
  obtain ⟨element, inGrid, j, below, rfl⟩ :=
    (numbered.produces_iff_occurs covered roomDofs roomPlaces).mp produced
  exact (numbered.realizes (covered.triangle element inGrid) roomDofs roomPlaces).headed j below

theorem Numbered.hasIndices (numbered : Numbered grid 1 basis numbering)
    (covered : grid.Covered) (nonempty : 0 < grid.size 0)
    (counted : basis.dimension = .ok dimension) (room : dimension < Index.limit)
    (places : numbering.places < Index.limit) : basis.HasIndices numbering dimension := by
  have dofs := numbered.dofs_eq counted room
  have roomDofs : numbering.dofs < Index.limit := dofs ▸ room
  exact {
    covers := numbered.grid_eq ▸ numbered.covers covered nonempty
    dofs
    places
    describes := numbered.describes covered nonempty roomDofs
    realizes := fun element inGrid => numbered.realizes
      (covered.triangle element (numbered.grid_eq ▸ inGrid)) roomDofs places }

theorem Numbered.hasNumbering (numbered : Numbered grid 1 basis numbering)
    (conforming : grid.Conforming) (nonempty : 0 < grid.size 0)
    (counted : basis.dimension = .ok dimension) (room : dimension < Index.limit) :
    basis.HasNumbering numbering dimension := by
  have dofs := numbered.dofs_eq counted room
  have lawful := numbered.lawful conforming nonempty
  have places : numbering.places < Index.limit := by
    have le := lawful.size_le_dofs nonempty
    rw [lawful.places]
    omega
  exact {
    toHasIndices := numbered.hasIndices conforming.covered nonempty counted room places
    lawful := numbered.grid_eq ▸ lawful }

/-- On a mesh with cells, the vertices of each of which are different ones. -/
theorem Numbered.hasNumbering_of_mesh {R : Type} {mesh : TriangleMesh R}
    {view : MeshView R Triangle} {tag : Nat} (viewed : MeshView.ofMesh mesh = .ok view)
    (distinct : mesh.Distinct) (nonempty : mesh.cells ≠ [])
    (numbered : Numbered (view.toGridView tag) 1 basis numbering)
    (counted : basis.dimension = .ok dimension) (room : dimension < Index.limit) :
    basis.HasNumbering numbering dimension := by
  have elements : 0 < (view.toGridView tag).size 0 :=
    Nat.lt_of_lt_of_eq (List.length_pos_iff.mpr nonempty) (MeshView.size_zero viewed).symm
  exact numbered.hasNumbering (MeshView.conforming viewed distinct) elements counted room

theorem Built.exists_hasNumbering_of_mesh {R : Type} {mesh : TriangleMesh R}
    {view : MeshView R Triangle} {tag : Nat} (viewed : MeshView.ofMesh mesh = .ok view)
    (distinct : mesh.Distinct) (nonempty : mesh.cells ≠ [])
    (built : Built (view.toGridView tag) 1 basis) (counted : basis.dimension = .ok dimension)
    (room : dimension < Index.limit) : ∃ numbering,
      Numbered (view.toGridView tag) 1 basis numbering ∧ basis.HasNumbering numbering dimension := by
  obtain ⟨numbering, numbered⟩ := built.exists_numbering
  exact ⟨numbering, numbered,
    numbered.hasNumbering_of_mesh viewed distinct nonempty counted room⟩

namespace Basis.HasIndices

theorem total_eq (numbered : basis.HasIndices numbering dimension) :
    numbering.tree.total = dimension := numbered.covers.total.trans numbered.dofs

theorem exists_bindFresh (numbered : basis.HasIndices numbering dimension)
    (inGrid : element < basis.grid.size 0) :
    ∃ view set, bindFresh basis element = .ok (view, set) ∧ set.Shows numbering element :=
  (numbered.realizes element inGrid).exists_bindFresh inGrid numbered.places

theorem produces_iff (numbered : basis.HasIndices numbering dimension) :
    basis.Produces index ↔ numbering.tree.Whole index :=
  (produces_iff_occurs numbered.realizes numbered.places).trans numbered.covers.occurs_iff

end Basis.HasIndices

theorem Basis.Realizes.agreeOn {agree : MultiIndex → MultiIndex → Prop}
    (realizes : basis.Realizes numbering element) (realizes' : other.Realizes numbering' element)
    (room : numbering.places < Index.limit) (room' : numbering'.places < Index.limit)
    (sameGrid : basis.grid = other.grid) (inGrid : element < basis.grid.size 0)
    (sameSize : numbering.size = numbering'.size)
    (agrees : ∀ j < numbering.size,
      agree (numbering.index element j) (numbering'.index element j)) :
    basis.AgreeOn other element agree := by
  obtain ⟨view, set, bound, shown⟩ := realizes.exists_bindFresh inGrid room
  obtain ⟨view', set', bound', shown'⟩ := realizes'.exists_bindFresh (sameGrid ▸ inGrid) room'
  refine ⟨view, set, view', set', numbering.size, bound, shown.boundSize_eq_ok, bound', ?_,
    fun j below => ⟨_, _, shown.index_eq_ok below, ?_, agrees j below⟩⟩
  · rw [shown'.boundSize_eq_ok, sameSize]
  · exact shown'.index_eq_ok (sameSize ▸ below)

theorem Basis.HasNumbering.agreeOn {agree : MultiIndex → MultiIndex → Prop}
    (numbered : basis.HasNumbering numbering dimension)
    (numbered' : other.HasNumbering numbering' dimension') (sameGrid : basis.grid = other.grid)
    (inGrid : element < basis.grid.size 0) (sameSize : numbering.size = numbering'.size)
    (agrees : ∀ j < numbering.size,
      agree (numbering.index element j) (numbering'.index element j)) :
    basis.AgreeOn other element agree :=
  (numbered.realizes element inGrid).agreeOn (numbered'.realizes element (sameGrid ▸ inGrid))
    numbered.places numbered'.places sameGrid inGrid sameSize agrees

end DofNumbering
