import DofNumbering.Proofs.Basis.EmptyPower
import DofNumbering.Proofs.Coverage

namespace DofNumbering

/-! Bases on grids without elements.

They have no degree of freedom, but the tree of their sizes has a whole index, as every
tree has one.  So the flattener has numbers for some lists: the stems within the sizes
that nothing follows.
-/

namespace Description

mutual

/-- The number of the leaves, with those of all copies. -/
def numLeaves : Description → Nat
  | .lagrange _ => 1
  | .power child exponent _ => exponent * child.numLeaves
  | .composite children _ => numLeavesOfAll children

def numLeavesOfAll : List Description → Nat
  | [] => 0
  | child :: rest => child.numLeaves + numLeavesOfAll rest

end

theorem numLeavesOfAll_eq_sum {children : List Description} :
    numLeavesOfAll children = (children.map numLeaves).sum := by
  induction children with
  | nil => rfl
  | cons first rest ih => rw [numLeavesOfAll, ih, List.map_cons, List.sum_cons]

end Description

/-- The sizes of a basis without degrees of freedom.  The tree has no more whole indices than
there are leaves, if copies are counted. -/
structure Basis.Vacant (basis : Basis) (tree : IndexTree) : Prop where
  total_le : tree.total ≤ basis.description.numLeaves
  sizedBy : basis.description.numLeaves < Index.limit → basis.SizedBy tree
  deep : ∀ index, tree.Whole index → index.length ≤ basis.maxIndexLength

variable {basis child : Basis} {tree : IndexTree} {merging : Merging} {blocked : Bool}
  {exponent : Nat} {members : Members}

theorem LagrangeBasis.vacant {basis : LagrangeBasis} (empty : basis.dimension = 0) :
    basis.toBasis.Vacant basis.numbering.tree where
  total_le := Nat.le_of_eq (IndexTree.total_of_count_zero empty)
  sizedBy _ := LagrangeBasis.sizedBy
  deep index whole := by
    have root : basis.numbering.tree.count = 0 := empty
    rw [IndexTree.eq_nil_of_whole root whole]
    exact Nat.zero_le _

section Powers

/-- There is no last entry behind a child without entries. -/
theorem PowerBasis.sizedBy_leaf (sized : child.SizedBy tree) (empty : tree.count = 0) :
    (PowerBasis.toBasis ⟨⟨blocked, .interleaved⟩, exponent, child⟩).SizedBy .leaf := by
  have none : ∀ stem, child.size stem = .ok 0 :=
    fun stem => sized stem 0 (IndexTree.size?_of_count_zero empty stem)
  intro stem size inTree
  rw [IndexTree.size?_of_count_zero rfl] at inTree
  obtain rfl := Option.some.inj inTree
  change PowerBasis.size _ _ = _
  cases blocked with
  | true => simp [PowerBasis.size, blockedInterleavedSize, none]
  | false =>
      change flatSize _ _ _ = _
      rw [flatSize, none, ok_bind]
      cases stem with
      | nil => exact Index.mul_eq_ok_iff.mpr ⟨by rw [Nat.mul_zero]; decide, (Nat.mul_zero _).symm⟩
      | cons first rest => rfl

variable (positive : 0 < exponent)

include positive

theorem Basis.Vacant.lexicographic (vacant : child.Vacant tree) :
    (PowerBasis.toBasis ⟨⟨blocked, .lexicographic⟩, exponent, child⟩).Vacant
      (.joined blocked (List.replicate exponent tree)) where
  total_le := by
    have nonempty : List.replicate exponent tree ≠ [] := by simp [Nat.ne_of_gt positive]
    refine (IndexTree.total_joined_le nonempty).trans ?_
    rw [List.map_replicate, List.sum_replicate_nat]
    exact Nat.mul_le_mul_left exponent vacant.total_le
  sizedBy room := by
    have fewer := Nat.lt_of_le_of_lt (Nat.le_mul_of_pos_left _ positive) room
    have le := Nat.mul_le_mul_left exponent (tree.count_le_total.trans vacant.total_le)
    exact PowerBasis.sizedBy_lexicographic (vacant.sizedBy fewer) positive
      (Nat.lt_of_le_of_lt le room)
  deep _ := IndexTree.length_le_of_whole_joined
    (fun _ inCopies => List.eq_of_mem_replicate inCopies ▸ vacant.deep)

theorem Basis.Vacant.exists_interleaved (vacant : child.Vacant tree) :
    ∃ whole, (PowerBasis.toBasis ⟨⟨blocked, .interleaved⟩, exponent, child⟩).Vacant whole := by
  have leaves : exponent * tree.total ≤ exponent * child.description.numLeaves :=
    Nat.mul_le_mul_left exponent vacant.total_le
  have once := Nat.le_mul_of_pos_left child.description.numLeaves positive
  rcases Nat.eq_zero_or_pos tree.count with empty | branching
  · refine ⟨.leaf, ?_, fun room => ?_, fun index whole => ?_⟩
    · exact (tree.total_pos.trans_le vacant.total_le).trans_le once
    · exact PowerBasis.sizedBy_leaf (vacant.sizedBy (Nat.lt_of_le_of_lt once room)) empty
    · rw [IndexTree.eq_nil_of_whole rfl whole]
      exact Nat.zero_le _
  · refine ⟨.interleaved blocked exponent tree, ?_, fun room => ?_, fun index whole => ?_⟩
    · exact (IndexTree.total_interleaved positive branching).trans_le leaves
    · have counts := (Nat.mul_le_mul_left exponent tree.count_le_total).trans leaves
      exact PowerBasis.sizedBy_interleaved (vacant.sizedBy (Nat.lt_of_le_of_lt once room)) branching
        positive (Nat.lt_of_le_of_lt counts room)
    · exact IndexTree.length_le_of_whole_interleaved positive branching vacant.deep whole

theorem Basis.Vacant.exists_power (vacant : child.Vacant tree) :
    ∃ whole, (PowerBasis.toBasis ⟨merging, exponent, child⟩).Vacant whole := by
  obtain ⟨blocked, layout⟩ := merging
  cases layout with
  | lexicographic => exact ⟨_, vacant.lexicographic positive⟩
  | interleaved => exact vacant.exists_interleaved positive

end Powers

theorem CompositeBasis.numLeaves_eq :
    (CompositeBasis.toBasis ⟨blocked, members⟩).description.numLeaves =
      (members.toList.map (fun member => member.description.numLeaves)).sum := by
  rw [CompositeBasis.toBasis, Description.numLeaves, Description.numLeavesOfAll_eq_sum,
    List.map_map]
  rfl

theorem CompositeBasis.vacant {tree : Basis → IndexTree}
    (each : ∀ member ∈ members.toList, member.Vacant (tree member)) :
    (CompositeBasis.toBasis ⟨blocked, members⟩).Vacant
      (.joined blocked (members.toList.map tree)) where
  total_le := by
    have nonempty : members.toList.map tree ≠ [] := by simp [Members.toList]
    refine (IndexTree.total_joined_le nonempty).trans ?_
    rw [numLeaves_eq, List.map_map]
    exact List.sum_le_sum (fun member inMembers => (each member inMembers).total_le)
  sizedBy room := by
    rw [numLeaves_eq] at room
    refine CompositeBasis.sizedBy (fun member inMembers => ?_) ?_
    · have le := List.le_sum_of_mem
        (List.mem_map_of_mem (f := fun member => member.description.numLeaves) inMembers)
      exact (each member inMembers).sizedBy (Nat.lt_of_le_of_lt le room)
    · refine Nat.lt_of_le_of_lt ?_ room
      rw [List.map_map]
      exact List.sum_le_sum (fun member inMembers =>
        (IndexTree.count_le_total _).trans (each member inMembers).total_le)
  deep _ := CompositeBasis.length_le_maxIndexLength
    (fun member inMembers => (each member inMembers).deep)

theorem Built.exists_vacant {grid : GridView} (noFace : grid.size 1 = 0) (noVertex : grid.size 2 = 0)
    (built : Built grid 1 basis) : ∃ tree, basis.Vacant tree := by
  induction built with
  | lagrange created =>
      have numbered : Numbered grid 1 _ _ := .lagrange created
      exact ⟨_, LagrangeBasis.vacant (numbered.dofs_eq_zero noFace noVertex)⟩
  | power merging exponent enough _ ih =>
      obtain ⟨tree, vacant⟩ := ih
      exact vacant.exists_power enough
  | composite created _ ih =>
      cases CompositeBasis.create_eq_ok created
      choose! tree vacant using ih
      exact ⟨_, CompositeBasis.vacant vacant⟩
  | tagged _ _ ih =>
      obtain ⟨tree, vacant⟩ := ih
      exact ⟨tree, vacant.total_le, vacant.sizedBy, vacant.deep⟩

theorem Basis.Vacant.countable (vacant : basis.Vacant tree)
    (room : basis.description.numLeaves + 1 < Index.limit) :
    basis.Countable basis.maxIndexLength tree := by
  have sized := vacant.sizedBy (Nat.lt_of_succ_lt room)
  have hasTree : basis.HasTree tree :=
    ⟨fun stem _ found => sized stem _ (IndexTree.size?_of_at? found), vacant.deep⟩
  exact hasTree.countable (Nat.lt_of_le_of_lt (Nat.succ_le_succ vacant.total_le) room)

section Meshes

variable {R : Type} {mesh : TriangleMesh R} {view : MeshView R Triangle} {tag : Nat}

/-- On a mesh without cells a basis has no degree of freedom, but there is a list with the flat
number zero, and all lists within the sizes that nothing follows are numbered in their order. -/
theorem empty_grid_numbers_stems (viewed : MeshView.ofMesh mesh = .ok view)
    (noCells : mesh.cells = []) (built : Built (view.toGridView tag) 1 basis)
    (room : basis.description.numLeaves + 1 < Index.limit) :
    basis.dimension = .ok 0 ∧
    (∃ index, basis.flattenIndex index = .ok (some 0)) ∧
    ∀ index : MultiIndex, (∀ entry ∈ index, entry + 1 < Index.limit) →
      ∃ flat, basis.flattenIndex index = .ok flat ∧
        ∀ number, flat = some number ↔ MultiIndex.Complete basis.size index ∧
          number = {other | MultiIndex.Complete basis.size other ∧
            MultiIndex.compare other index = .lt}.ncard := by
  have distinct : mesh.Distinct := by
    intro cell inCells
    rw [noCells] at inCells
    contradiction
  have noElement : (view.toGridView tag).size 0 = 0 :=
    (MeshView.size_zero viewed).trans (congrArg List.length noCells)
  obtain ⟨noFace, noVertex⟩ := (MeshView.conforming viewed distinct).size_eq_zero noElement
  obtain ⟨numbering, numbered⟩ := built.exists_numbering
  have noDofs := numbered.dofs_eq_zero noFace noVertex
  obtain ⟨tree, vacant⟩ := built.exists_vacant noFace noVertex
  have countable := vacant.countable room
  refine ⟨?_, ?_, fun index small => ⟨_,
    countable.flattenIndex_eq (IndexTree.not_overflows_of_small small),
    fun number => IndexTree.rank?_eq_some_iff countable.follows⟩⟩
  · rw [← noDofs]
    exact numbered.measure_eq_ok Basis.additive_dimension (noDofs ▸ by decide)
  · obtain ⟨index, ranked⟩ := IndexTree.exists_rank?_eq_some tree.total_pos
    exact ⟨index, countable.flattenIndex_eq_ok ranked⟩

end Meshes

end DofNumbering
