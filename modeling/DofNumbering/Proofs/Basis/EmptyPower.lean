import DofNumbering.Proofs.Numbering.Insertion
import DofNumbering.Proofs.Offsets

namespace DofNumbering

/-! Powers without copies, and composites that have one as a member.

Such a power has no index.  But a stem that nothing follows is taken for a whole index,
and the power has such stems: the one that leads to it, or those that are whole indices
of its child.  So its tree is not that of a basis without degrees of freedom.
-/

/-- The number of stems in a power without copies that nothing follows, where the power is
a member of a composite and its child has the given dimension. -/
def Merging.vacancy (blocked : Bool) (merging : Merging) (dimension : Nat) : Nat :=
  if merging = .blockedInterleaved then dimension else blocked.toNat

theorem Merging.vacancy_le {blocked : Bool} {merging : Merging} {dimension : Nat}
    (positive : 0 < dimension) : merging.vacancy blocked dimension ≤ dimension := by
  unfold vacancy
  split
  · exact Nat.le_refl _
  · exact (Bool.toNat_le blocked).trans positive

/-- The sizes of a basis are those of the tree, and no whole index is too long. -/
structure Basis.HasTree (basis : Basis) (tree : IndexTree) : Prop where
  follows : tree.Follows basis.size
  deep : ∀ index, tree.Whole index → index.length ≤ basis.maxIndexLength

theorem Basis.Describes.hasTree {basis : Basis} {tree : IndexTree} (describes : basis.Describes tree) :
    basis.HasTree tree where
  follows stem _ found := describes.sizedBy stem _ (IndexTree.size?_of_at? found)
  deep := describes.hasDepth.bound

theorem Basis.HasTree.countable {basis : Basis} {tree : IndexTree} (hasTree : basis.HasTree tree)
    (room : tree.total + 1 < Index.limit) : basis.Countable basis.maxIndexLength tree where
  follows := hasTree.follows
  bounded stem sub found := by
    have le := sub.count_le_total.trans (IndexTree.total_le_of_at? found)
    omega
  deep := hasTree.deep
  room := by omega

section Powers

variable {merging : Merging} {numbering : Numbering} {child : Basis} {blocked : Bool}
  {numElements : Nat}

/-- Without copies nothing is left of the tree, or the entry for the copy is missing. -/
theorem Numbering.tree_power_zero (merging : Merging) (numbering : Numbering) :
    merging = .blockedInterleaved ∧
        (numbering.power merging 0).tree = numbering.tree.graft 0 ∧
        (numbering.power merging 0).root = numbering.root ∨
      merging ≠ .blockedInterleaved ∧ (numbering.power merging 0).root = 0 ∧
        ∃ block, (numbering.power merging 0).tree = .node 0 block := by
  obtain ⟨blocked, layout⟩ := merging
  cases layout with
  | lexicographic =>
      refine .inr ⟨by simp [Merging.blockedInterleaved], ?_⟩
      cases blocked with
      | true => exact ⟨rfl, _, rfl⟩
      | false => exact ⟨rfl, _, rfl⟩
  | interleaved =>
      cases blocked with
      | true => exact .inl ⟨rfl, rfl, rfl⟩
      | false =>
          refine .inr ⟨by simp [Merging.blockedInterleaved], Nat.zero_mul _, ?_⟩
          simp only [power, copies, interleaved, IndexTree.interleaved, Nat.zero_mul]
          exact ⟨_, rfl⟩

theorem Numbering.root_power_zero (covers : numbering.Covers numElements) :
    (numbering.power merging 0).root = (numbering.power merging 0).tree.count := by
  obtain ⟨-, tree, root⟩ | ⟨-, root, block, tree⟩ := tree_power_zero merging numbering
  · rw [tree, root, IndexTree.count_graft_zero, covers.count]
  · rw [tree, root, IndexTree.count]

theorem Numbering.dofs_power_zero : (numbering.power merging 0).dofs = numbering.dofs := Nat.one_mul _

theorem Numbering.count_power_zero_le (covers : numbering.Covers numElements) :
    (numbering.power merging 0).tree.count ≤ numbering.dofs := by
  rw [← covers.total]
  obtain ⟨-, tree, -⟩ | ⟨-, -, block, tree⟩ := tree_power_zero merging numbering
  · rw [tree, IndexTree.count_graft_zero]
    exact IndexTree.count_le_total _
  · rw [tree]
    exact Nat.zero_le _

theorem Numbering.weight_power_zero (covers : numbering.Covers numElements) :
    (numbering.power merging 0).tree.weight blocked = merging.vacancy blocked numbering.dofs := by
  obtain ⟨isInterleaved, tree, -⟩ | ⟨other, -, block, tree⟩ := tree_power_zero merging numbering
  · have branching : 0 < (numbering.tree.graft 0).count := by
      rw [IndexTree.count_graft_zero]
      exact covers.branching
    rw [tree, IndexTree.weight_of_count_pos branching, IndexTree.total_graft_zero, covers.total,
      Merging.vacancy, if_pos isInterleaved]
  · rw [tree, Merging.vacancy, if_neg other]
    cases blocked with
    | true => exact IndexTree.total_of_count_zero rfl
    | false => rfl

theorem PowerBasis.hasTree_power_zero (describes : child.Describes numbering.tree)
    (covers : numbering.Covers numElements) :
    (PowerBasis.toBasis ⟨merging, 0, child⟩).HasTree (numbering.power merging 0).tree := by
  obtain ⟨rfl, tree, -⟩ | ⟨-, root, block, tree⟩ := Numbering.tree_power_zero merging numbering
  · rw [tree]
    constructor
    · exact fun stem sub found => blockedInterleavedSize_eq_ok describes.sizedBy covers.branching
        (IndexTree.size?_of_at? found)
    · intro index whole
      rw [IndexTree.whole_graft_zero_iff] at whole
      exact (describes.hasDepth.bound index whole).trans (Nat.le_add_right _ _)
  · rw [tree]
    constructor
    · have sizeNil : child.size [] = .ok numbering.root :=
        covers.count ▸ describes.sizedBy [] _ rfl
      have room : 0 * numbering.root < Index.limit := by
        rw [Nat.zero_mul]
        decide
      refine IndexTree.follows_node ?_ (fun entry inRange => absurd inRange (Nat.not_lt_zero entry))
      exact (size_nil sizeNil room).trans (congrArg Except.ok root)
    · intro index whole
      cases index with
      | nil => exact Nat.zero_le _
      | cons entry rest => exact absurd whole.1 (Nat.not_lt_zero entry)

theorem PowerBasis.measure_power_zero {value : Basis → Except Fault Nat} {number : Numbering → Nat}
    (additive : Basis.Additive value number) {found : Nat} (counted : value child = .ok found) :
    value (PowerBasis.toBasis ⟨merging, 0, child⟩) = .ok 0 := by
  rw [additive.atPower, counted, ok_bind]
  exact Index.mul_eq_ok_iff.mpr ⟨by rw [Nat.zero_mul]; decide, (Nat.zero_mul _).symm⟩

end Powers

section Composites

variable {grid : GridView} {members extended : Members} {front back : List Basis} {inner : Basis}
  {merging : Merging} {blocked : Bool} {numbering : Basis → Numbering} {innerNumbering : Numbering}

/-- The numberings of the members, with that of one more basis. -/
theorem exists_numbering_insert {extra : Basis} {extraNumbering : Numbering}
    (numbered : ∀ member ∈ front ++ back, Numbered grid 1 member (numbering member))
    (extraNumbered : Numbered grid 0 extra extraNumbering) (apart : extra ∉ front ++ back) :
    ∃ numbering' : Basis → Numbering,
      (∀ member ∈ front ++ extra :: back, Numbered grid 0 member (numbering' member)) ∧
      numbering' extra = extraNumbering ∧
      ∀ member ∈ front ++ back, numbering' member = numbering member := by
  classical
  have others : ∀ member ∈ front ++ back,
      Function.update numbering extra extraNumbering member = numbering member :=
    fun member inOthers => Function.update_of_ne (ne_of_mem_of_not_mem inOthers apart) ..
  refine ⟨Function.update numbering extra extraNumbering, fun member inserted => ?_,
    Function.update_self .., others⟩
  rcases List.mem_cons.mp (List.perm_middle.mem_iff.mp inserted) with rfl | inOthers
  · rwa [Function.update_self]
  · rw [others member inOthers]
    exact (numbered member inOthers).mono (Nat.zero_le 1)

theorem CompositeBasis.hasTree {tree : Basis → IndexTree}
    (each : ∀ member ∈ members.toList, member.HasTree (tree member))
    (room : ((members.toList.map tree).map IndexTree.count).sum < Index.limit) :
    (CompositeBasis.toBasis ⟨blocked, members⟩).HasTree
      (.joined blocked (members.toList.map tree)) where
  follows := CompositeBasis.follows (fun member inMembers => (each member inMembers).follows) room
  deep _ := CompositeBasis.length_le_maxIndexLength
    (fun member inMembers => (each member inMembers).deep)

/-- The power adds nothing to what a composite sums over its members. -/
theorem CompositeBasis.measure_insert {value : Basis → Except Fault Nat} {number : Numbering → Nat}
    (additive : Basis.Additive value number) (listed : members.toList = front ++ back)
    (inserted : extended.toList = front ++ PowerBasis.toBasis ⟨merging, 0, inner⟩ :: back)
    {sum found : Nat} (counted : value (CompositeBasis.toBasis ⟨blocked, members⟩) = .ok sum)
    (innerCounted : value inner = .ok found) :
    value (CompositeBasis.toBasis ⟨blocked, extended⟩) = .ok sum := by
  rw [additive.atComposite, listed] at counted
  rw [additive.atComposite, inserted]
  exact Index.sumFrom_insert_eq_ok (PowerBasis.measure_power_zero additive innerCounted)
    (by decide) counted

end Composites

end DofNumbering
