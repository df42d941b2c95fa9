import DofNumbering.Proofs.Container

namespace DofNumbering

/-! Lexicographic powers and composites of copies.

A power multiplies where a composite adds up, and finds the copy of an index by
dividing where a composite searches.  Both have the same numbering.
-/

/-- The same basis a number of times, at least once. -/
def Members.copies (count : Nat) (basis : Basis) : Members :=
  ⟨basis, List.replicate (count - 1) basis⟩

/-- The bases cannot be told apart by their sizes and their indices on the elements. -/
structure Basis.SameAs (basis other : Basis) : Prop where
  dimension : ∃ dimension, basis.dimension = .ok dimension ∧ other.dimension = .ok dimension
  maxNodeSize : ∃ size, basis.maxNodeSize = .ok size ∧ other.maxNodeSize = .ok size
  maxIndexLength : basis.maxIndexLength = other.maxIndexLength
  size : ∀ stem index, basis.Produces index → stem <+: index →
    ∃ size, basis.size stem = .ok size ∧ other.size stem = .ok size
  indices : ∀ element < basis.grid.size 0, basis.AgreeOn other element (· = ·)

variable {basis other child : Basis} {numbering numbering' : Numbering} {grid : GridView}
  {dimension count numElements : Nat} {blocked : Bool} {node : Descriptor}

theorem Members.toList_copies (positive : 0 < count) :
    (Members.copies count child).toList = List.replicate count child := by
  rw [toList, copies, ← List.replicate_succ, Nat.sub_add_cancel positive]

theorem Members.eq_of_mem_copies {member : Basis}
    (inCopies : member ∈ (Members.copies count child).toList) : member = child := by
  rcases List.mem_cons.mp inCopies with rfl | inRest
  · rfl
  · exact List.eq_of_mem_replicate inRest

theorem IndexTree.HasDepth.unique {tree : IndexTree} {depth depth' : Nat}
    (deep : tree.HasDepth depth) (deep' : tree.HasDepth depth') : depth = depth' := by
  obtain ⟨index, whole, length⟩ := deep.attained
  obtain ⟨index', whole', length'⟩ := deep'.attained
  have le := deep'.bound index whole
  have le' := deep.bound index' whole'
  omega

/-- Two bases with one tree and one index for each local degree of freedom. -/
theorem Basis.HasNumbering.sameAs (numbered : basis.HasNumbering numbering dimension)
    (numbered' : other.HasNumbering numbering' dimension) (sameGrid : basis.grid = other.grid)
    (counted : basis.dimension = .ok dimension) (counted' : other.dimension = .ok dimension)
    (sized : basis.maxNodeSize = .ok numbering.places)
    (sized' : other.maxNodeSize = .ok numbering'.places)
    (sameTree : numbering.tree = numbering'.tree) (sameSize : numbering.size = numbering'.size)
    (sameIndex : numbering.index = numbering'.index) : basis.SameAs other where
  dimension := ⟨dimension, counted, counted'⟩
  maxNodeSize := by
    rw [numbered.lawful.places, sameSize, ← numbered'.lawful.places] at sized
    exact ⟨numbering'.places, sized, sized'⟩
  maxIndexLength := by
    have deep := numbered.describes.hasDepth
    rw [sameTree] at deep
    exact deep.unique numbered'.describes.hasDepth
  size stem index produced isPrefix := by
    obtain ⟨sub, found⟩ := IndexTree.exists_at?_iff.mpr
      ⟨index, numbered.produces_iff.mp produced, isPrefix⟩
    have sized := IndexTree.size?_of_at? found
    exact ⟨sub.count, numbered.describes.sizedBy stem _ sized,
      numbered'.describes.sizedBy stem _ (sameTree ▸ sized)⟩
  indices element inGrid := numbered.agreeOn numbered' sameGrid inGrid sameSize
    (fun j _ => by rw [sameIndex])

theorem Numbered.power_sameAs_copies (conforming : grid.Conforming) (nonempty : 0 < grid.size 0)
    (positive : 0 < count) (numbered : Numbered grid 1 child numbering)
    (counted : child.dimension = .ok dimension) (room : count * dimension < Index.limit)
    (blocked : Bool) :
    (PowerBasis.toBasis ⟨⟨blocked, .lexicographic⟩, count, child⟩).SameAs
      (CompositeBasis.toBasis ⟨blocked, .copies count child⟩) := by
  have product : (PowerBasis.toBasis ⟨⟨blocked, .lexicographic⟩, count, child⟩).dimension =
      .ok (count * dimension) := by
    change PowerBasis.dimension _ = _
    rw [PowerBasis.dimension, counted, ok_bind]
    exact if_pos room
  have sum : (CompositeBasis.toBasis ⟨blocked, .copies count child⟩).dimension =
      .ok (count * dimension) := by
    change Index.sumOver _ (Members.copies count child).toList = _
    rw [Members.toList_copies positive]
    exact Index.sumOver_replicate_eq_ok counted room
  have power := Numbered.power ⟨blocked, .lexicographic⟩ count positive numbered
  have members : ∀ member ∈ (Members.copies count child).toList, Numbered grid 1 member numbering :=
    fun member inCopies => Members.eq_of_mem_copies inCopies ▸ numbered
  have composite := Numbered.composite (fun _ => numbering) (@CompositeBasis.create_of_grid _ blocked
    grid (fun member inMembers => (members member inMembers).grid_eq)) members
  rw [Members.toList_copies positive, List.map_replicate] at composite
  have hasPower := power.hasNumbering conforming nonempty product room
  have hasComposite := composite.hasNumbering conforming nonempty sum room
  exact hasPower.sameAs hasComposite rfl product sum
    (power.measure_eq_ok Basis.additive_maxNodeSize hasPower.places)
    (composite.measure_eq_ok Basis.additive_maxNodeSize hasComposite.places) rfl rfl rfl

section Containers

variable (has : child.HasContainer numbering numElements dimension node)

include has

theorem Basis.HasContainer.power_blocked : (PowerBasis.toBasis
    ⟨.blockedLexicographic, count, child⟩).container = .ok (.uniformArray count node) := by
  change PowerBasis.container _ = _
  rw [PowerBasis.container, has.contained, ok_bind]
  rfl

theorem Basis.HasContainer.copies_container_eq (positive : 0 < count) :
    (CompositeBasis.toBasis ⟨blocked, .copies count child⟩).container =
      if blocked then .ok (.block .array (List.replicate count node))
      else if node.isFlat then do
        let size ← Index.sumOver (fun child => .ok child.size) (List.replicate count node)
        .ok (Descriptor.flatVector size)
      else .ok .unknown := by
  change CompositeBasis.container _ = _
  have contained : ∀ member ∈ (Members.copies count child).toList, member.container = .ok node :=
    fun member inCopies => Members.eq_of_mem_copies inCopies ▸ has.contained
  rw [CompositeBasis.container_eq contained, Members.toList_copies positive, List.map_replicate,
    Descriptor.ofChildren_replicate, List.all_replicate, if_neg (Nat.ne_of_gt positive)]

/-- In the flat layout, both containers are flat vectors or both are unknown. -/
theorem Basis.HasContainer.power_flat_eq_copies (positive : 0 < count)
    (room : count * dimension < Index.limit) : ∃ whole,
    (PowerBasis.toBasis ⟨.flatLexicographic, count, child⟩).container = .ok whole ∧
    (CompositeBasis.toBasis ⟨false, .copies count child⟩).container = .ok whole := by
  rw [has.copies_container_eq positive, if_neg (by simp)]
  cases isFlat : node.isFlat with
  | true =>
      have flat := has.flat isFlat
      obtain rfl := has.eq_flatVector isFlat
      refine ⟨_, (PowerBasis.hasFlatContainer flat .lexicographic room).contained, ?_⟩
      have sum := @Index.sumOver_replicate_eq_ok _ (fun child : Descriptor => .ok child.size)
        (.flatVector dimension) count dimension rfl room
      rw [if_pos rfl, sum, ok_bind]
  | false =>
      refine ⟨.unknown, ?_, if_neg (by simp)⟩
      change PowerBasis.container _ = _
      rw [PowerBasis.container, has.contained, ok_bind]
      change (if node.isFlat then _ else _) = _
      rw [isFlat, if_neg (by simp)]

end Containers

section Mesh

variable {R : Type} {mesh : TriangleMesh R} {view : MeshView R Triangle}

/-- A lexicographic power is the composite of its copies, up to the form of the blocked
container. -/
theorem power_is_composite_of_copies (viewed : MeshView.ofMesh mesh = .ok view)
    (distinct : mesh.Distinct) (nonempty : mesh.cells ≠ []) (tag : Nat) (blocked : Bool)
    (positive : 0 < count) (built : Built (view.toGridView tag) 1 child)
    (counted : child.dimension = .ok dimension) (room : count * dimension < Index.limit) :
    CompositeBasis.create blocked (.copies count child) = .ok ⟨blocked, .copies count child⟩ ∧
    (PowerBasis.toBasis ⟨⟨blocked, .lexicographic⟩, count, child⟩).SameAs
      (CompositeBasis.toBasis ⟨blocked, .copies count child⟩) ∧
    (blocked = true → ∃ node, child.container = .ok node ∧
      (PowerBasis.toBasis ⟨⟨blocked, .lexicographic⟩, count, child⟩).container =
        .ok (.uniformArray count node) ∧
      (CompositeBasis.toBasis ⟨blocked, .copies count child⟩).container =
        .ok (.block .array (List.replicate count node))) ∧
    (blocked = false → ∃ whole,
      (PowerBasis.toBasis ⟨⟨blocked, .lexicographic⟩, count, child⟩).container = .ok whole ∧
      (CompositeBasis.toBasis ⟨blocked, .copies count child⟩).container = .ok whole) := by
  have conforming := @MeshView.conforming _ _ _ tag viewed distinct
  have elements : 0 < (view.toGridView tag).size 0 :=
    Nat.lt_of_lt_of_eq (List.length_pos_iff.mpr nonempty) (MeshView.size_zero viewed).symm
  obtain ⟨numbering, numbered⟩ := built.exists_numbering
  have roomChild : numbering.dofs < Index.limit := by
    have le := Nat.le_mul_of_pos_left dimension positive
    have roomDimension : dimension < Index.limit := by omega
    rwa [numbered.dofs_eq counted roomDimension]
  obtain ⟨node, has⟩ := numbered.exists_hasContainer conforming.covered
    (numbered.vertices_lt roomChild) counted (numbered.exponents_lt conforming elements roomChild)
  refine ⟨@CompositeBasis.create_of_grid _ blocked (view.toGridView tag) (fun member inCopies => ?_),
    numbered.power_sameAs_copies conforming elements positive counted room blocked, ?_, ?_⟩
  · rw [Members.eq_of_mem_copies inCopies, built.grid_eq]
  · rintro rfl
    exact ⟨node, has.contained, has.power_blocked, by rw [has.copies_container_eq positive, if_pos rfl]⟩
  · rintro rfl
    exact has.power_flat_eq_copies positive room

/-- Three copies of a basis whose indices have different lengths. -/
theorem power_is_composite_of_copies_square :
    (PowerBasis.toBasis ⟨.blockedLexicographic, 3, Sample.pair.toBasis⟩).SameAs
      (CompositeBasis.toBasis ⟨true, .copies 3 Sample.pair.toBasis⟩) ∧
    (PowerBasis.toBasis ⟨.flatLexicographic, 3, Sample.pair.toBasis⟩).SameAs
      (CompositeBasis.toBasis ⟨false, .copies 3 Sample.pair.toBasis⟩) :=
  ⟨(power_is_composite_of_copies Sample.square_viewed Sample.square_distinct (by decide) 0 true
      (by decide) Sample.pair_built Sample.pair_dimension (by decide)).2.1,
    (power_is_composite_of_copies Sample.square_viewed Sample.square_distinct (by decide) 0 false
      (by decide) Sample.pair_built Sample.pair_dimension (by decide)).2.1⟩

end Mesh

end DofNumbering
