import DofNumbering.Proofs.Built
import DofNumbering.Proofs.Local.IndexSet
import DofNumbering.Proofs.Samples

namespace DofNumbering

/-! The table of the indices of powers and composites.

A table says at which local position a degree of freedom of a child appears in
the parent, and which index it has there.  It holds on every element, whatever
the children are made of.
-/

namespace Merging

/-- The local position of degree of freedom `j` of a copy, of `exponent` copies with
`size` local degrees of freedom each. -/
def position (merging : Merging) (exponent size copy j : Nat) : Nat :=
  match merging.layout with
  | .lexicographic => copy * size + j
  | .interleaved => j * exponent + copy

/-- The index for an index of a copy, of `exponent` copies with `root` values of the
first entry each. -/
def merged (merging : Merging) (exponent root copy : Nat) (index : MultiIndex) : MultiIndex :=
  match merging, index with
  | ⟨true, .lexicographic⟩, index => copy :: index
  | ⟨true, .interleaved⟩, index => index ++ [copy]
  | ⟨false, .lexicographic⟩, first :: rest => (copy * root + first) :: rest
  | ⟨false, .interleaved⟩, first :: rest => (first * exponent + copy) :: rest
  | ⟨false, _⟩, [] => []

end Merging

/-- On an element, the power has the indices of its child, bound alone, in the
places and with the changes of the table. -/
def PowerBasis.FollowsTable (basis : PowerBasis) (element : Nat) : Prop :=
  ∃ childView childSet view set size root,
    bindFresh basis.child element = .ok (childView, childSet) ∧
    childSet.boundSize = .ok size ∧ basis.child.size [] = .ok root ∧
    bindFresh basis.toBasis element = .ok (view, set) ∧
    set.boundSize = .ok (basis.exponent * size) ∧
    ∀ copy < basis.exponent, ∀ j < size, ∃ index, childSet.index j = .ok index ∧ index ≠ [] ∧
      set.index (basis.merging.position basis.exponent size copy j) =
        .ok (basis.merging.merged basis.exponent root copy index)

/-- The index for an index of child number `child`, where the children before it have
`offset` values of the first entry. -/
def CompositeBasis.merged (blocked : Bool) (offset child : Nat) (index : MultiIndex) : MultiIndex :=
  match blocked, index with
  | true, index => child :: index
  | false, first :: rest => (offset + first) :: rest
  | false, [] => []

/-- On an element, the composite has the indices of its children, each bound alone,
one child after the other and with the changes of the table. -/
def CompositeBasis.FollowsTable (basis : CompositeBasis) (element : Nat) : Prop :=
  ∃ (childView : Nat → LocalView) (childSet : Nat → LocalIndexSet) (size root : Nat → Nat)
      (view : LocalView) (set : LocalIndexSet),
    (∀ k member, basis.members.toList[k]? = some member →
      bindFresh member element = .ok (childView k, childSet k) ∧
      (childSet k).boundSize = .ok (size k) ∧ member.size [] = .ok (root k)) ∧
    bindFresh basis.toBasis element = .ok (view, set) ∧
    set.boundSize = .ok (∑ k ∈ Finset.range basis.members.count, size k) ∧
    ∀ k < basis.members.count, ∀ j < size k, ∃ index, (childSet k).index j = .ok index ∧
      index ≠ [] ∧ set.index ((∑ i ∈ Finset.range k, size i) + j) =
        .ok (merged basis.blocked (∑ i ∈ Finset.range k, root i) k index)

variable {merging : Merging} {exponent element : Nat} {child : Basis} {numbering : Numbering}

theorem Merging.index_position (headed : numbering.Headed element) {copy j : Nat}
    (below : copy < exponent) (within : j < numbering.size) :
    (numbering.power merging exponent).index element
        (merging.position exponent numbering.size copy j) =
      merging.merged exponent numbering.root copy (numbering.index element j) := by
  obtain ⟨first, rest, equal, -⟩ := headed j within
  obtain ⟨blocked, layout⟩ := merging
  cases layout with
  | lexicographic =>
      have slot := @Numbering.index_joined blocked (List.replicate exponent numbering) numbering
        element j copy (by rw [List.getElem?_replicate, if_pos below]) within
      rw [List.map_replicate, List.map_replicate, partOffset_replicate (Nat.le_of_lt below),
        partOffset_replicate (Nat.le_of_lt below)] at slot
      refine slot.trans ?_
      rw [equal]
      cases blocked <;> rfl
  | interleaved =>
      refine (Numbering.index_interleaved below).trans ?_
      rw [equal]
      cases blocked <;> rfl

theorem Merging.position_lt {size copy j : Nat} (below : copy < exponent) (within : j < size) :
    merging.position exponent size copy j < exponent * size := by
  have found : (List.replicate exponent size)[copy]? = some size := by
    rw [List.getElem?_replicate, if_pos below]
  obtain ⟨blocked, layout⟩ := merging
  cases layout with
  | lexicographic =>
      have slot := (tiling_consecutive (List.replicate exponent size)).lt_sum found within
      rwa [partOffset_replicate (Nat.le_of_lt below), List.sum_replicate_nat] at slot
  | interleaved =>
      have slot := (tiling_interleaved exponent size).lt_sum found within
      rwa [List.sum_replicate_nat] at slot

theorem PowerBasis.followsTable (realizes : child.Realizes numbering element)
    (inGrid : element < child.grid.size 0) (positive : 0 < exponent)
    (roomDofs : exponent * numbering.dofs < Index.limit)
    (roomPlaces : exponent * numbering.places < Index.limit) :
    FollowsTable ⟨merging, exponent, child⟩ element := by
  have most : max 1 exponent = exponent := Nat.max_eq_right positive
  have roomChild : numbering.places < Index.limit :=
    Nat.lt_of_le_of_lt (Nat.le_mul_of_pos_left _ positive) roomPlaces
  rw [← most] at roomDofs roomPlaces
  have parent := @PowerBasis.realizes child numbering merging exponent element realizes roomDofs
    roomPlaces
  obtain ⟨childView, childSet, boundChild, shownChild⟩ := realizes.exists_bindFresh inGrid roomChild
  obtain ⟨view, set, bound, shown⟩ := parent.exists_bindFresh inGrid roomPlaces
  have size : (numbering.power merging exponent).size = exponent * numbering.size :=
    Numbering.size_power merging
  refine ⟨childView, childSet, view, set, numbering.size, numbering.root, boundChild,
    shownChild.boundSize_eq_ok, realizes.sizeNil, bound, ?_, fun copy below j within => ?_⟩
  · rw [shown.boundSize_eq_ok, size]
  · obtain ⟨first, rest, equal, -⟩ := realizes.headed j within
    have nonempty : numbering.index element j ≠ [] := by
      rw [equal]
      exact List.cons_ne_nil first rest
    refine ⟨_, shownChild.index_eq_ok within, nonempty, ?_⟩
    rw [← Merging.index_position realizes.headed below within]
    exact shown.index_eq_ok (Nat.lt_of_lt_of_eq (Merging.position_lt below within) size.symm)

variable {members : Members} {numbers : Basis → Numbering} {blocked : Bool}

theorem partOffset_eq_sum {values : List Nat} {value : Nat → Nat} {part : Nat}
    (le : part ≤ values.length) (found : ∀ i < values.length, values[i]? = some (value i)) :
    partOffset values part = ∑ i ∈ Finset.range part, value i := by
  induction part with
  | zero => rfl
  | succ part ih =>
      rw [Finset.sum_range_succ, ← ih (by omega), partOffset, partOffset, List.take_add_one,
        found part (by omega)]
      simp

theorem CompositeBasis.followsTable
    (realizes : ∀ member ∈ members.toList, member.Realizes (numbers member) element)
    (inGrid : ∀ member ∈ members.toList, element < member.grid.size 0)
    (roomDofs : (Numbering.joined blocked (members.toList.map numbers)).dofs < Index.limit)
    (roomPlaces : (Numbering.joined blocked (members.toList.map numbers)).places < Index.limit) :
    FollowsTable ⟨blocked, members⟩ element := by
  have parent := CompositeBasis.realizes realizes roomDofs roomPlaces
  have bindMember : ∀ k < members.count, ∃ view set,
      bindFresh (members.at k) element = .ok (view, set) ∧
        set.Shows (numbers (members.at k)) element := by
    intro k below
    have inMembers := members.at_mem below
    have le := @Numbering.places_le_joined blocked _ _ (List.mem_map_of_mem (f := numbers) inMembers)
    exact (realizes _ inMembers).exists_bindFresh (inGrid _ inMembers)
      (Nat.lt_of_le_of_lt le roomPlaces)
  have : Nonempty LocalView := ⟨.create members.first⟩
  have : Nonempty LocalIndexSet := ⟨.create members.first⟩
  choose! childView childSet boundChild shownChild using bindMember
  obtain ⟨view, set, bound, shown⟩ := parent.exists_bindFresh
    (inGrid members.first members.first_mem) roomPlaces
  let parts := members.toList.map numbers
  have length : parts.length = members.count := List.length_map ..
  have foundPart : ∀ k < members.count, parts[k]? = some (numbers (members.at k)) := by
    intro k below
    rw [List.getElem?_map, members.getElem?_toList below]
    rfl
  have sums : ∀ (value : Numbering → Nat) k, k ≤ members.count →
      partOffset (parts.map value) k = ∑ i ∈ Finset.range k, value (numbers (members.at i)) := by
    intro value k le
    refine partOffset_eq_sum (by rwa [List.length_map, length]) (fun i below => ?_)
    rw [List.length_map, length] at below
    rw [List.getElem?_map, foundPart i below]
    rfl
  refine ⟨childView, childSet, fun k => (numbers (members.at k)).size,
    fun k => (numbers (members.at k)).root, view, set, ?_, bound, ?_, ?_⟩
  · intro k member found
    have below : k < members.count := (List.getElem?_eq_some_iff.mp found).1
    obtain rfl : members.at k = member :=
      Option.some.inj ((members.getElem?_toList below).symm.trans found)
    exact ⟨boundChild k below, (shownChild k below).boundSize_eq_ok,
      (realizes _ (members.at_mem below)).sizeNil⟩
  · rw [shown.boundSize_eq_ok, ← sums Numbering.size members.count (Nat.le_refl _)]
    refine congrArg Except.ok (congrArg List.sum (List.take_of_length_le ?_).symm)
    rw [List.length_map, length]
  · intro k below j within
    obtain ⟨first, rest, equal, -⟩ := (realizes _ (members.at_mem below)).headed j within
    have slot := @Numbering.index_joined blocked parts _ element j k (foundPart k below) within
    have inParent : partOffset (parts.map Numbering.size) k + j < (parts.map Numbering.size).sum :=
      (tiling_consecutive _).lt_sum (by rw [List.getElem?_map, foundPart k below]; rfl) within
    refine ⟨_, (shownChild k below).index_eq_ok within, ?_, ?_⟩
    · rw [equal]
      exact List.cons_ne_nil first rest
    · rw [← sums Numbering.size k (Nat.le_of_lt below),
        ← sums Numbering.root k (Nat.le_of_lt below)]
      rw [shown.index_eq_ok inParent, slot, equal]
      cases blocked <;> rfl

section Table

variable {R : Type} {mesh : TriangleMesh R} {view : MeshView R Triangle} {least tag : Nat}

theorem Numbered.inGrid {basis : Basis} (numbered : Numbered (view.toGridView tag) least basis numbering)
    (inView : element < view.size 0) : element < basis.grid.size 0 := by
  rwa [numbered.grid_eq]

theorem Numbered.power_followsTable (viewed : MeshView.ofMesh mesh = .ok view)
    (positive : 0 < exponent) (numbered : Numbered (view.toGridView tag) least child numbering)
    (roomDofs : exponent * numbering.dofs < Index.limit)
    (roomPlaces : exponent * numbering.places < Index.limit) (inView : element < view.size 0) :
    PowerBasis.FollowsTable ⟨merging, exponent, child⟩ element := by
  have once := Nat.le_mul_of_pos_left numbering.dofs positive
  have once' := Nat.le_mul_of_pos_left numbering.places positive
  have realizes := numbered.realizes (MeshView.hasTriangle viewed inView)
    (Nat.lt_of_le_of_lt once roomDofs) (Nat.lt_of_le_of_lt once' roomPlaces)
  exact PowerBasis.followsTable realizes (numbered.inGrid inView) positive roomDofs roomPlaces

theorem Numbered.composite_followsTable (viewed : MeshView.ofMesh mesh = .ok view)
    {basis : CompositeBasis} (created : CompositeBasis.create blocked members = .ok basis)
    (numbered : ∀ member ∈ members.toList,
      Numbered (view.toGridView tag) least member (numbers member))
    (roomDofs : (Numbering.joined blocked (members.toList.map numbers)).dofs < Index.limit)
    (roomPlaces : (Numbering.joined blocked (members.toList.map numbers)).places < Index.limit)
    (inView : element < view.size 0) : basis.FollowsTable element := by
  cases CompositeBasis.create_eq_ok created
  refine CompositeBasis.followsTable (fun member inMembers => ?_)
    (fun member inMembers => (numbered member inMembers).inGrid inView) roomDofs roomPlaces
  have inParts := List.mem_map_of_mem (f := numbers) inMembers
  exact (numbered member inMembers).realizes (MeshView.hasTriangle viewed inView)
    (Nat.lt_of_le_of_lt (Numbering.dofs_le_joined inParts) roomDofs)
    (Nat.lt_of_le_of_lt (Numbering.places_le_joined inParts) roomPlaces)

/-- The table holds for every power and every composite of built bases, on every
element of the view of a mesh.  If all exponents are positive, it is enough that the
dimension and the bound on the local sizes are indices; in general they have to be
indices with each exponent zero read as one. -/
theorem merging_table (viewed : MeshView.ofMesh mesh = .ok view) (tag : Nat) :
    (∀ (merging : Merging) (exponent : Nat) (child : Basis) (dimension size : Nat), 0 < exponent →
      Built (view.toGridView tag) 1 child →
      (PowerBasis.toBasis ⟨merging, exponent, child⟩).dimension = .ok dimension →
      (PowerBasis.toBasis ⟨merging, exponent, child⟩).maxNodeSize = .ok size →
      dimension < Index.limit → size < Index.limit →
      ∀ element < view.size 0, PowerBasis.FollowsTable ⟨merging, exponent, child⟩ element) ∧
    (∀ (blocked : Bool) (members : Members) (basis : CompositeBasis) (dimension size : Nat),
      CompositeBasis.create blocked members = .ok basis →
      (∀ member ∈ members.toList, Built (view.toGridView tag) 1 member) →
      basis.toBasis.dimension = .ok dimension → basis.toBasis.maxNodeSize = .ok size →
      dimension < Index.limit → size < Index.limit →
      ∀ element < view.size 0, basis.FollowsTable element) ∧
    (∀ (merging : Merging) (exponent : Nat) (child : Basis) (numbering : Numbering), 0 < exponent →
      Numbered (view.toGridView tag) 0 child numbering →
      exponent * numbering.dofs < Index.limit → exponent * numbering.places < Index.limit →
      ∀ element < view.size 0, PowerBasis.FollowsTable ⟨merging, exponent, child⟩ element) ∧
    (∀ (blocked : Bool) (members : Members) (basis : CompositeBasis)
      (numbering : Basis → Numbering), CompositeBasis.create blocked members = .ok basis →
      (∀ member ∈ members.toList, Numbered (view.toGridView tag) 0 member (numbering member)) →
      (members.toList.map (fun member => (numbering member).dofs)).sum < Index.limit →
      (members.toList.map (fun member => (numbering member).places)).sum < Index.limit →
      ∀ element < view.size 0, basis.FollowsTable element) := by
  refine ⟨?_, ?_, ?_, ?_⟩
  · intro merging exponent child dimension size positive built counted sized room roomSize element
      inView
    obtain ⟨numbering, numbered⟩ := built.exists_numbering
    have parent := Numbered.power merging exponent positive numbered
    have most : max 1 exponent = exponent := Nat.max_eq_right positive
    have dofs : max 1 exponent * numbering.dofs = dimension := parent.dofs_eq counted room
    have places : max 1 exponent * numbering.places = size := parent.places_eq sized roomSize
    rw [most] at dofs places
    exact numbered.power_followsTable viewed positive (by rwa [dofs]) (by rwa [places]) inView
  · intro blocked members basis dimension size created built counted sized room roomSize element
      inView
    choose! numbering numbered using fun member inMembers => (built member inMembers).exists_numbering
    have parent := Numbered.composite numbering created numbered
    refine Numbered.composite_followsTable viewed created numbered ?_ ?_ inView
    · rwa [parent.dofs_eq counted room]
    · rwa [parent.places_eq sized roomSize]
  · intro merging exponent child numbering positive numbered roomDofs roomPlaces element inView
    exact numbered.power_followsTable viewed positive roomDofs roomPlaces inView
  · intro blocked members basis numbering created numbered roomDofs roomPlaces element inView
    have dofs : (Numbering.joined blocked (members.toList.map numbering)).dofs =
        (members.toList.map (fun member => (numbering member).dofs)).sum :=
      congrArg List.sum List.map_map
    have places : (Numbering.joined blocked (members.toList.map numbering)).places =
        (members.toList.map (fun member => (numbering member).places)).sum :=
      congrArg List.sum List.map_map
    rw [← dofs] at roomDofs
    rw [← places] at roomPlaces
    exact Numbered.composite_followsTable viewed created numbered roomDofs roomPlaces inView

/-- Interleaved copies of numbered-through parts, these parts, and copies of a basis
without copies, on the second of two triangles. -/
theorem merging_table_square :
    PowerBasis.FollowsTable ⟨.flatInterleaved, 3, Sample.pair.toBasis⟩ 1 ∧
      Sample.pair.FollowsTable 1 ∧
      PowerBasis.FollowsTable ⟨.blockedLexicographic, 2,
        PowerBasis.toBasis ⟨.blockedInterleaved, 0, Sample.linear.toBasis⟩⟩ 1 := by
  obtain ⟨power, composite, zeros, -⟩ := merging_table Sample.square_viewed 0
  refine ⟨?_, ?_, ?_⟩
  · exact power .flatInterleaved 3 Sample.pair.toBasis 51 36 (by decide) Sample.pair_built rfl rfl
      (by decide) (by decide) 1 (by decide)
  · exact composite false Sample.pair.members Sample.pair 17 12 Sample.pair_created
      Sample.pair_members_built rfl rfl (by decide) (by decide) 1 (by decide)
  · exact zeros .blockedLexicographic 2 _ _ (by decide)
      (.power .blockedInterleaved 0 (by decide) (.lagrange Sample.linear_created)) (by decide)
      (by decide) 1 (by decide)

/-- Without the exponents zero read as one the bounds do not suffice: the dimension is
zero, but the children in front have too many values of the first entry together. -/
theorem empties_not_followsTable :
    Built (Sample.triangleView.toGridView 0) 0 Sample.empties.toBasis ∧
      Sample.empties.toBasis.dimension = .ok 0 ∧ Sample.empties.toBasis.maxNodeSize = .ok 0 ∧
      0 < Sample.triangleView.size 0 ∧ ¬ Sample.empties.FollowsTable 0 := by
  refine ⟨Sample.empties_built, rfl, rfl, by decide, ?_⟩
  rintro ⟨_, _, _, _, view, set, -, bound, -⟩
  have stopped : bindFresh Sample.empties.toBasis 0 = .error .arithmetic := rfl
  rw [stopped] at bound
  contradiction

end Table

end DofNumbering
